/-
  A table of handles that several users open and close by their numbers.

  Numbers are used again, so a close names an opening only through what the table holds at that
  time. Every opening gets a number of its own here, as a mark, and every close is recorded with the
  opening it hit.
-/
import Mathlib.Data.List.Nodup

namespace Pfs.Lib

open Function List

variable {O : Type}

/-- The table: how many openings there were, what is open at each number and for whom, and all
    closes with their users and what they hit. -/
structure Handles (O : Type) where
  count : Nat
  slot : Nat → Option (Nat × O)
  closes : List (O × Option (Nat × O))

namespace Handles

def init : Handles O := ⟨0, fun _ => none, []⟩

/-- `n` is given to `o`. -/
def opened (t : Handles O) (o : O) (n : Nat) : Handles O :=
  { t with count := t.count + 1, slot := update t.slot n (some (t.count, o)) }

/-- `o` closes `n`, whatever that is. -/
def close (t : Handles O) (o : O) (n : Nat) : Handles O :=
  { t with slot := update t.slot n none, closes := t.closes ++ [(o, t.slot n)] }

/-- The openings that were closed, once for every close. -/
def closed (t : Handles O) : List Nat := t.closes.filterMap fun c => c.2.map Prod.fst

theorem closed_close {t : Handles O} {o : O} {n k : Nat} {o' : O} (h : t.slot n = some (k, o')) :
    (t.close o n).closed = t.closed ++ [k] := by
  simp [closed, close, h, filterMap_append]

end Handles

/-- **The openings are accounted for**: each was closed at most once, by its user, and is open
    otherwise. -/
structure Tidy (t : Handles O) : Prop where
  own : ∀ c ∈ t.closes, ∃ k, c.2 = some (k, c.1)
  once : t.closed.Nodup
  past : ∀ k ∈ t.closed, k < t.count
  live : ∀ n k o, t.slot n = some (k, o) → k < t.count ∧ k ∉ t.closed
  inj : ∀ n m k o o', t.slot n = some (k, o) → t.slot m = some (k, o') → n = m
  all : ∀ k < t.count, k ∈ t.closed ∨ ∃ n o, t.slot n = some (k, o)

theorem tidy_init : Tidy (Handles.init : Handles O) where
  own := fun _ hc => nomatch hc
  once := nodup_nil
  past := fun _ hk => nomatch hk
  live := fun _ _ _ h => nomatch h
  inj := fun _ _ _ _ _ h => nomatch h
  all := fun _ hk => absurd hk (Nat.not_lt_zero _)

theorem Tidy.opened {t : Handles O} (h : Tidy t) {n : Nat} (hn : t.slot n = none) (o : O) :
    Tidy (t.opened o n) := by
  have hslot : ∀ m k o', (t.opened o n).slot m = some (k, o') →
      m = n ∧ k = t.count ∨ m ≠ n ∧ t.slot m = some (k, o') := by
    intro m k o' hm
    by_cases hmn : m = n
    · subst hmn
      simp only [Handles.opened, update_self, Option.some.injEq, Prod.mk.injEq] at hm
      exact .inl ⟨rfl, hm.1.symm⟩
    · simp only [Handles.opened, update_of_ne hmn] at hm
      exact .inr ⟨hmn, hm⟩
  refine ⟨h.own, h.once, fun k hk => Nat.lt_succ_of_lt (h.past k hk), ?_, ?_, ?_⟩
  · intro m k o' hm
    obtain ⟨-, rfl⟩ | ⟨-, hm⟩ := hslot m k o' hm
    · exact ⟨Nat.lt_succ_self _, fun hk => Nat.lt_irrefl _ (h.past _ hk)⟩
    · exact ⟨Nat.lt_succ_of_lt (h.live m k o' hm).1, (h.live m k o' hm).2⟩
  · intro m m' k o₁ o₂ hm hm'
    obtain ⟨rfl, rfl⟩ | ⟨-, hm⟩ := hslot m k o₁ hm
    · obtain ⟨rfl, -⟩ | ⟨-, hm'⟩ := hslot m' _ o₂ hm'
      · rfl
      · exact absurd (h.live m' _ o₂ hm').1 (Nat.lt_irrefl _)
    · obtain ⟨-, rfl⟩ | ⟨-, hm'⟩ := hslot m' k o₂ hm'
      · exact absurd (h.live m _ o₁ hm).1 (Nat.lt_irrefl _)
      · exact h.inj m m' k o₁ o₂ hm hm'
  · intro k hk
    obtain hk | rfl := Nat.lt_succ_iff_lt_or_eq.mp hk
    · obtain hc | ⟨m, o', hm⟩ := h.all k hk
      · exact .inl hc
      have hmn : m ≠ n := by
        rintro rfl
        cases hn.symm.trans hm
      exact .inr ⟨m, o', by simp [Handles.opened, update_of_ne hmn, hm]⟩
    · exact .inr ⟨n, o, by simp [Handles.opened]⟩

theorem Tidy.close {t : Handles O} (h : Tidy t) {n k : Nat} {o : O} (hn : t.slot n = some (k, o)) :
    Tidy (t.close o n) := by
  obtain ⟨hlt, hnot⟩ := h.live n k o hn
  have hslot : ∀ m k' o', (t.close o n).slot m = some (k', o') →
      m ≠ n ∧ t.slot m = some (k', o') := by
    intro m k' o' hm
    by_cases hmn : m = n
    · subst hmn
      simp [Handles.close] at hm
    · simp only [Handles.close, update_of_ne hmn] at hm
      exact ⟨hmn, hm⟩
  have hclosed := @Handles.closed_close O t o n k o hn
  refine ⟨?_, ?_, ?_, ?_, ?_, ?_⟩
  · intro c hc
    obtain hc | hc := mem_append.mp hc
    · exact h.own c hc
    · rw [mem_singleton.mp hc]
      exact ⟨k, hn⟩
  · rw [hclosed]
    refine nodup_append.mpr ⟨h.once, nodup_singleton k, ?_⟩
    intro a ha b hb hab
    exact hnot (mem_singleton.mp hb ▸ hab ▸ ha)
  · intro k' hk'
    rw [hclosed] at hk'
    obtain hk' | hk' := mem_append.mp hk'
    · exact h.past k' hk'
    · rw [mem_singleton.mp hk']
      exact hlt
  · intro m k' o' hm
    obtain ⟨hmn, hm⟩ := hslot m k' o' hm
    refine ⟨(h.live m k' o' hm).1, ?_⟩
    rw [hclosed]
    intro hk'
    obtain hk' | hk' := mem_append.mp hk'
    · exact (h.live m k' o' hm).2 hk'
    · rw [mem_singleton.mp hk'] at hm
      exact hmn (h.inj m n k o' o hm hn)
  · intro m m' k' o₁ o₂ hm hm'
    exact h.inj m m' k' o₁ o₂ (hslot m k' o₁ hm).2 (hslot m' k' o₂ hm').2
  · intro k' hk'
    rw [hclosed]
    obtain hc | ⟨m, o', hm⟩ := h.all k' hk'
    · exact .inl (mem_append_left _ hc)
    by_cases hmn : m = n
    · subst hmn
      cases hn.symm.trans hm
      exact .inl (mem_append_right _ (mem_singleton.mpr rfl))
    · exact .inr ⟨m, o', by simp [Handles.close, update_of_ne hmn, hm]⟩

end Pfs.Lib
