/-
  Lists of entries with time stamps, the longest inactive first, and scans that stop at
  the first active one.

  A stamp is written with a move to the end of the list (`move`, `add`) or in place (`write`). Two
  marks go with it: `placed`, the time of the last write at the end of the list, and `heard`, the
  time of the last sign of life.
-/
import Mathlib.Data.List.Basic

namespace Pfs.Lib

open List

structure Aged (κ : Type) where
  id : κ
  stamp : Int
  placed : Int
  heard : Int
  deriving DecidableEq, Repr

namespace Aged

variable {κ : Type} [DecidableEq κ]

def remove (k : κ) (l : List (Aged κ)) : List (Aged κ) := l.filter fun p => p.id ≠ k

/-- A new entry, at the end. -/
def add (k : κ) (v t : Int) (l : List (Aged κ)) : List (Aged κ) :=
  if l.any fun p => p.id = k then l else l ++ [⟨k, v, t, t⟩]

/-- To the end, with stamp `v` at time `t`. -/
def move (k : κ) (v t : Int) (l : List (Aged κ)) : List (Aged κ) :=
  remove k l ++ ((l.find? fun p => p.id = k).map fun p => { p with stamp := v, placed := t }).toList

/-- The stamp is written in place. -/
def write (k : κ) (v t : Int) : List (Aged κ) → List (Aged κ)
  | [] => []
  | [p] => [if p.id = k then { p with stamp := v, placed := t } else p]
  | p :: q :: l => if p.id = k then { p with stamp := v } :: q :: l else p :: write k v t (q :: l)

def hear (k : κ) (t : Int) (l : List (Aged κ)) : List (Aged κ) :=
  l.map fun p => if p.id = k then { p with heard := t } else p

/-! ## 1. The order -/

/-- The entries stand in the order of `placed`. -/
structure Ordered (now : Int) (l : List (Aged κ)) : Prop where
  sorted : l.Pairwise fun p q => p.placed ≤ q.placed
  upto : ∀ p ∈ l, p.placed ≤ now

namespace Ordered

variable {now t : Int} {k : κ} {v : Int} {l : List (Aged κ)}

omit [DecidableEq κ] in
theorem nil (now : Int) : Ordered now ([] : List (Aged κ)) := ⟨.nil, fun _ h => absurd h (by simp)⟩

omit [DecidableEq κ] in
theorem mono (h : Ordered now l) (ht : now ≤ t) : Ordered t l :=
  ⟨h.sorted, fun p hp => Int.le_trans (h.upto p hp) ht⟩

omit [DecidableEq κ] in
theorem sublist {l' : List (Aged κ)} (h : Ordered now l) (hl : l'.Sublist l) : Ordered now l' :=
  ⟨h.sorted.sublist hl, fun p hp => h.upto p (hl.subset hp)⟩

omit [DecidableEq κ] in
theorem append (h : Ordered now l) (ht : now ≤ t) {x : Aged κ} (hx : x.placed = t) :
    Ordered t (l ++ [x]) where
  sorted := by
    refine pairwise_append.mpr ⟨h.sorted, by simp, fun p hp q hq => ?_⟩
    rw [mem_singleton.mp hq, hx]
    exact Int.le_trans (h.upto p hp) ht
  upto := by
    intro p hp
    rcases mem_append.mp hp with hp | hp
    · exact Int.le_trans (h.upto p hp) ht
    · rw [mem_singleton.mp hp]
      exact Int.le_of_eq hx

theorem remove (h : Ordered now l) (k : κ) : Ordered now (remove k l) := h.sublist filter_sublist

theorem add (h : Ordered now l) (ht : now ≤ t) : Ordered t (add k v t l) := by
  unfold Aged.add
  split
  · exact h.mono ht
  · exact h.append ht rfl

theorem move (h : Ordered now l) (ht : now ≤ t) : Ordered t (move k v t l) := by
  unfold Aged.move
  cases l.find? fun p => p.id = k with
  | none =>
    rw [Option.map_none, Option.toList_none, append_nil]
    exact (h.remove k).mono ht
  | some p => exact (h.remove k).append ht rfl

end Ordered

variable {v t : Int}

variable {l : List (Aged κ)} {k : κ} {p : Aged κ}

theorem mem_add (h : p ∈ add k v t l) : p ∈ l ∨ p = ⟨k, v, t, t⟩ := by
  unfold add at h
  split at h
  · exact .inl h
  rcases mem_append.mp h with h | h
  · exact .inl h
  · exact .inr (mem_singleton.mp h)

theorem mem_move (h : p ∈ move k v t l) : p ∈ l ∨ p.placed = t ∧ p.stamp = v := by
  rcases mem_append.mp h with h | h
  · exact .inl (mem_of_mem_filter h)
  · obtain ⟨q, -, rfl⟩ := Option.map_eq_some_iff.mp (Option.mem_toList.mp h)
    exact .inr ⟨rfl, rfl⟩

theorem mem_write (h : p ∈ write k v t l) :
    ∃ q ∈ l, p.id = q.id ∧ p.heard = q.heard ∧ (p.placed = q.placed ∨ p.placed = t ∧ p.stamp = v) ∧
      (p.stamp = q.stamp ∨ q.id = k ∧ p.stamp = v) := by
  fun_induction write k v t l with
  | case1 => cases h
  | case2 q =>
    rw [mem_singleton.mp h]
    refine ⟨q, mem_singleton_self q, ?_⟩
    split
    · rename_i hq
      exact ⟨rfl, rfl, Or.inr ⟨rfl, rfl⟩, Or.inr ⟨hq, rfl⟩⟩
    · exact ⟨rfl, rfl, Or.inl rfl, Or.inl rfl⟩
  | case3 q r l =>
    rcases mem_cons.mp h with rfl | h
    · exact ⟨q, mem_cons_self, rfl, rfl, Or.inl rfl, Or.inr ⟨by assumption, rfl⟩⟩
    · exact ⟨p, mem_cons_of_mem _ h, rfl, rfl, Or.inl rfl, Or.inl rfl⟩
  | case4 q r l _ ih =>
    rcases mem_cons.mp h with rfl | h
    · exact ⟨p, mem_cons_self, rfl, rfl, Or.inl rfl, Or.inl rfl⟩
    · obtain ⟨x, hx, hr⟩ := ih h
      exact ⟨x, mem_cons_of_mem _ hx, hr⟩

theorem Ordered.write {now t : Int} {v : Int} (h : Ordered now l) (ht : now ≤ t) :
    Ordered t (write k v t l) := by
  fun_induction Aged.write k v t l with
  | case1 => exact h.mono ht
  | case2 p =>
    have hp := h.upto p mem_cons_self
    refine ⟨by simp, fun q hq => ?_⟩
    rw [mem_singleton.mp hq]
    split
    · exact Int.le_refl t
    · exact Int.le_trans hp ht
  | case3 p q l hp =>
    refine ⟨?_, fun x hx => ?_⟩
    · exact pairwise_cons.mpr (pairwise_cons.mp h.sorted)
    · rcases mem_cons.mp hx with rfl | hx
      · exact Int.le_trans (h.upto p mem_cons_self) ht
      · exact Int.le_trans (h.upto x (mem_cons_of_mem _ hx)) ht
  | case4 p q l hp ih =>
    have hrest := ih (h.sublist (sublist_cons_self _ _))
    refine ⟨pairwise_cons.mpr ⟨fun x hx => ?_, hrest.sorted⟩, fun x hx => ?_⟩
    · obtain ⟨y, hy, -, -, he | he, -⟩ := mem_write hx
      · rw [he]
        exact (pairwise_cons.mp h.sorted).1 y hy
      · rw [he.1]
        exact Int.le_trans (h.upto p mem_cons_self) ht
    · rcases mem_cons.mp hx with rfl | hx
      · exact Int.le_trans (h.upto x mem_cons_self) ht
      · exact hrest.upto x hx

/-! ## 2. Writing the last entry -/

theorem write_absent (hl : ∀ p ∈ l, p.id ≠ k) : write k v t l = l := by
  fun_induction write k v t l with
  | case1 => rfl
  | case2 p => rw [if_neg (hl p mem_cons_self)]
  | case3 p q l hp => exact absurd hp (hl p mem_cons_self)
  | case4 p q l hp ih => rw [ih fun x hx => hl x (mem_cons_of_mem _ hx)]

theorem hear_absent (hl : ∀ p ∈ l, p.id ≠ k) : hear k t l = l := by
  refine (map_congr_left fun p hp => ?_).trans (map_id l)
  rw [if_neg (hl p hp)]
  rfl

theorem write_last (hl : ∀ p ∈ l, p.id ≠ k) {x : Aged κ} (hx : x.id = k) :
    write k v t (l ++ [x]) = l ++ [{ x with stamp := v, placed := t }] := by
  induction l with
  | nil =>
    change [if x.id = k then { x with stamp := v, placed := t } else x] = _
    rw [if_pos hx]
    rfl
  | cons p l ih =>
    have hp : p.id ≠ k := hl p mem_cons_self
    obtain ⟨q, r, hq⟩ : ∃ q r, l ++ [x] = q :: r := exists_cons_of_ne_nil (by simp)
    rw [cons_append, hq, write, if_neg hp, ← hq, ih fun y hy => hl y (mem_cons_of_mem _ hy)]
    rfl

theorem hear_last (hl : ∀ p ∈ l, p.id ≠ k) {x : Aged κ} (hx : x.id = k) :
    hear k t (l ++ [x]) = l ++ [{ x with heard := t }] := by
  have hrest := hear_absent (t := t) hl
  unfold hear at hrest ⊢
  rw [map_append, hrest, map_singleton, if_pos hx]

theorem id_ne_of_remove : ∀ p ∈ remove k l, p.id ≠ k :=
  fun _ hp => of_decide_eq_true (mem_filter.mp hp).2

/-! ## 3. Scans -/

omit [DecidableEq κ] in
/-- Where no entry was written elsewhere since, they stand in the order of their stamps. -/
theorem Ordered.stamps {now : Int} (h : Ordered now l) (hs : ∀ p ∈ l, p.stamp = p.placed) :
    l.Pairwise fun p q => p.stamp ≤ q.stamp := by
  refine h.sorted.imp_of_mem fun hp hq hle => ?_
  rw [hs _ hp, hs _ hq]
  exact hle

end Aged

/-- A scan that stops at the first entry it keeps misses none, if none stands behind an entry that
    is kept. -/
theorem dropWhile_none {α : Type} {R : α → α → Prop} {old : α → Bool} {l : List α}
    (hs : l.Pairwise R) (hold : ∀ a b, R a b → old a = false → old b = false) :
    ∀ a ∈ l.dropWhile old, old a = false := by
  induction l with
  | nil => exact fun a ha => absurd ha not_mem_nil
  | cons x l ih =>
    obtain ⟨hx, hl⟩ := pairwise_cons.mp hs
    rw [dropWhile_cons]
    split
    · exact ih hl
    rename_i hold'
    have hxold : old x = false := by simpa using hold'
    intro a ha
    rcases mem_cons.mp ha with rfl | ha
    · exact hxold
    · exact hold x a (hx a ha) hxold

end Pfs.Lib
