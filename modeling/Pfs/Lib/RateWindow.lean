/-
  At most `n` events in any interval of length `d`, for events that come in windows of `n`.

  Times are listed newest first.
-/
import Mathlib.Order.Monotone.Basic
import Mathlib.Order.Nat

namespace Pfs.Lib

open List

/-- The events in an interval of length `d` that begins after `t`. -/
def within (d t : Int) (ts : List Int) : Nat := ts.countP fun u => t < u ∧ u ≤ t + d

/-- Whatever lies `n` places back is at least `d` ago. -/
def Spaced (d : Int) (n : Nat) : List Int → Prop
  | [] => True
  | t :: ts => (∀ u ∈ ts.drop (n - 1), u + d ≤ t) ∧ Spaced d n ts

/-- **No interval of length `d` has more than `n` events.** -/
theorem Spaced.within_le {d : Int} {n : Nat} {ts : List Int} (hn : 0 < n) (h : Spaced d n ts)
    (t : Int) :
    within d t ts ≤ n := by
  induction ts with
  | nil => exact Nat.zero_le n
  | cons u ts ih =>
    obtain ⟨hold, hrest⟩ := h
    unfold within at ih ⊢
    by_cases hu : t < u ∧ u ≤ t + d
    · rw [countP_cons_of_pos (by simpa using hu)]
      -- Behind the first `n - 1` nothing lies in the interval of `u`.
      have hzero : (ts.drop (n - 1)).countP (fun v => decide (t < v ∧ v ≤ t + d)) = 0 := by
        rw [countP_eq_zero]
        intro v hv
        have := hold v hv
        simp only [decide_eq_true_eq]
        omega
      have hfew : (ts.take (n - 1)).countP (fun v => decide (t < v ∧ v ≤ t + d)) ≤ n - 1 :=
        Nat.le_trans countP_le_length (length_take_le _ _)
      have hsum := @countP_append _ (fun v => decide (t < v ∧ v ≤ t + d)) (ts.take (n - 1))
        (ts.drop (n - 1))
      rw [take_append_drop] at hsum
      omega
    · rw [countP_cons_of_neg (by simpa using hu)]
      exact ih hrest

/-- The first `n` events of a window. -/
def timetable (g : Nat → Nat) (start : Int) : Nat → List Int
  | 0 => []
  | n + 1 => (start + g n) :: timetable g start n

section Timetable

variable {g : Nat → Nat} {start : Int}

theorem length_timetable (n : Nat) : (timetable g start n).length = n := by
  induction n with
  | zero => rfl
  | succ n ih => rw [timetable, length_cons, ih]

variable {n : Nat}

theorem drop_timetable (k : Nat) {m : Nat} (h : n = m + k) :
    (timetable g start n).drop k = timetable g start m := by
  subst h
  induction k with
  | zero => rfl
  | succ k ih => exact ih

theorem mem_timetable {t : Int} : t ∈ timetable g start n ↔ ∃ k < n, t = start + g k := by
  induction n with
  | zero => simp [timetable]
  | succ n ih =>
    rw [timetable, mem_cons, ih]
    constructor
    · rintro (rfl | ⟨k, hk, rfl⟩)
      · exact ⟨n, Nat.lt_succ_self n, rfl⟩
      · exact ⟨k, Nat.lt_succ_of_lt hk, rfl⟩
    · rintro ⟨k, hk, rfl⟩
      obtain hlt | rfl := Nat.lt_succ_iff_lt_or_eq.mp hk
      · exact .inr ⟨k, hlt, rfl⟩
      · exact .inl rfl

theorem mem_start (hg0 : g 0 = 0) (hn : 0 < n) : start ∈ timetable g start n :=
  mem_timetable.mpr ⟨0, hn, by simp [hg0]⟩

end Timetable

/-- The current window began at `start` and has `c` events; the window before it had `n` and began
    at least `d` earlier. -/
structure Windows (g : Nat → Nat) (d : Int) (n : Nat) (start : Int) (c : Nat) (ts : List Int) :
    Prop where
  sorted : ts.Pairwise (· ≥ ·)
  split : ∃ older, ts = timetable g start c ++ older ∧
    (older = [] ∨ ∃ before rest, older = timetable g before n ++ rest ∧ before + d ≤ start)

section Windows

variable {g : Nat → Nat} {d : Int} {n c : Nat} {start t : Int} {ts : List Int}

theorem Windows.nil : Windows g d n start 0 [] := ⟨List.Pairwise.nil, [], rfl, .inl rfl⟩

/-- One more event in the current window. -/
theorem Windows.same (hg : Monotone g) (hg0 : g 0 = 0) (h : Windows g d n start c ts) (hc : c < n)
    (hlast : ∀ u ∈ ts, u ≤ start + g c) :
    Windows g d n start (c + 1) ((start + g c) :: ts) ∧ ∀ u ∈ ts.drop (n - 1), u + d ≤ start +
      g c := by
  obtain ⟨older, rfl, hold⟩ := h.split
  refine ⟨⟨pairwise_cons.mpr ⟨hlast, h.sorted⟩, older, rfl, hold⟩, fun u hu => ?_⟩
  obtain rfl | ⟨before, rest, rfl, hbefore⟩ := hold
  · rw [append_nil, drop_eq_nil_of_le (by rw [length_timetable]; omega)] at hu
    cases hu
  obtain ⟨-, hsorted, -⟩ := pairwise_append.mp h.sorted
  obtain ⟨-, -, hrest⟩ := pairwise_append.mp hsorted
  rw [drop_append, drop_eq_nil_of_le (by rw [length_timetable]; omega), nil_append,
    length_timetable, drop_append, mem_append] at hu
  obtain hu | hu := hu
  · rw [drop_timetable (n - 1 - c) (by omega : n = c + 1 + (n - 1 - c)), mem_timetable] at hu
    obtain ⟨k, hk, rfl⟩ := hu
    have hmono := hg (Nat.le_of_lt_succ hk)
    omega
  · have hle := hrest before (mem_start hg0 (by omega)) u (mem_of_mem_drop hu)
    omega

/-- The first event of a new window. -/
theorem Windows.fresh (hg0 : g 0 = 0) (h : Windows g d n start n ts) (hn : 0 < n)
    (ht : start + d ≤ t) (hlast : ∀ u ∈ ts, u ≤ t) :
    Windows g d n t 1 (t :: ts) ∧ ∀ u ∈ ts.drop (n - 1), u + d ≤ t := by
  obtain ⟨older, rfl, -⟩ := h.split
  refine ⟨⟨pairwise_cons.mpr ⟨hlast, h.sorted⟩, _, ?_, .inr ⟨start, older, rfl, ht⟩⟩,
    fun u hu => ?_⟩
  · simp [timetable, hg0]
  · obtain ⟨-, -, hold⟩ := pairwise_append.mp h.sorted
    rw [drop_append, mem_append] at hu
    obtain hu | hu := hu
    · rw [drop_timetable (n - 1) (by omega : n = 1 + (n - 1)), mem_timetable] at hu
      obtain ⟨k, hk, rfl⟩ := hu
      obtain rfl : k = 0 := by omega
      omega
    · have hle := hold start (mem_start hg0 hn) u (mem_of_mem_drop hu)
      omega

theorem Windows.le_within (h : Windows g d n start c ts) (ht : t < start)
    (hlast : ∀ u ∈ ts, u ≤ t + d) :
    c ≤ within d t ts := by
  obtain ⟨older, rfl, -⟩ := h.split
  have hall : within d t (timetable g start c) = (timetable g start c).length := by
    refine countP_eq_length.mpr fun u hu => ?_
    have hle := hlast u (mem_append_left _ hu)
    obtain ⟨k, -, rfl⟩ := mem_timetable.mp hu
    simp only [decide_eq_true_eq]
    omega
  unfold within at hall ⊢
  rw [countP_append, hall, length_timetable]
  exact Nat.le_add_right _ _

end Windows

end Pfs.Lib
