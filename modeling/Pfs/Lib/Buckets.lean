/-
  Tables of chained buckets, newest entry first.

  An entry goes to the front of the bucket of its key; a deletion takes the first entry of that key
  out of its bucket. What such a table means is said by its chains.
-/
import Mathlib.Data.List.Basic

namespace Pfs.Lib

open Function List

variable {κ ι ε : Type} [DecidableEq κ] [DecidableEq ι]

namespace Buckets

variable (key : ε → κ) (hash : κ → ι)

def insert (b : ι → List ε) (e : ε) : ι → List ε :=
  update b (hash (key e)) (e :: b (hash (key e)))

def remove (b : ι → List ε) (k : κ) : ι → List ε :=
  update b (hash k) ((b (hash k)).eraseP fun e => decide (key e = k))

/-- The entries with the key `k`, newest first. -/
def chain (b : ι → List ε) (k : κ) : List ε := (b (hash k)).filter fun e => decide (key e = k)

/-- Every entry is in the bucket of its key. -/
def Placed (b : ι → List ε) : Prop := ∀ i, ∀ e ∈ b i, hash (key e) = i

variable {key hash}

/-- An insertion puts one entry in front of one chain; all others stay. -/
theorem chain_insert (b : ι → List ε) (e : ε) (k : κ) :
    chain key hash (insert key hash b e) k =
      if key e = k then e :: chain key hash b k else chain key hash b k := by
  unfold chain insert
  by_cases hk : key e = k
  · subst hk
    rw [update_self, filter_cons_of_pos (by simp), if_pos rfl]
  rw [if_neg hk]
  by_cases hh : hash k = hash (key e)
  · rw [hh, update_self, filter_cons_of_neg (by simpa using hk)]
  · rw [update_of_ne hh]

theorem filter_eraseP_self (l : List ε) (p : ε → Bool) :
    (l.eraseP p).filter p = (l.filter p).tail := by
  induction l with
  | nil => rfl
  | cons a l ih =>
    by_cases ha : p a = true
    · rw [eraseP_cons_of_pos ha, filter_cons_of_pos ha, tail_cons]
    · rw [eraseP_cons_of_neg ha, filter_cons_of_neg ha, filter_cons_of_neg ha, ih]

theorem filter_eraseP_of_disjoint (l : List ε) {p q : ε → Bool}
    (hpq : ∀ a, p a = true → q a = false) : (l.eraseP p).filter q = l.filter q := by
  induction l with
  | nil => rfl
  | cons a l ih =>
    by_cases ha : p a = true
    · rw [eraseP_cons_of_pos ha, filter_cons_of_neg (by simp [hpq a ha])]
    · rw [eraseP_cons_of_neg ha, filter_cons, filter_cons, ih]

/-- A deletion takes the first entry off one chain; all others stay. -/
theorem chain_remove (b : ι → List ε) (k k' : κ) :
    chain key hash (remove key hash b k) k' =
      if k = k' then (chain key hash b k').tail else chain key hash b k' := by
  unfold chain remove
  by_cases hk : k = k'
  · subst hk
    rw [update_self, filter_eraseP_self, if_pos rfl]
  rw [if_neg hk]
  by_cases hh : hash k' = hash k
  · rw [hh, update_self]
    refine filter_eraseP_of_disjoint _ fun e he => ?_
    have he : key e = k := of_decide_eq_true he
    simpa [he] using hk
  · rw [update_of_ne hh]

omit [DecidableEq κ] in
theorem placed_insert {b : ι → List ε} (h : Placed key hash b) (e : ε) :
    Placed key hash (insert key hash b e) := by
  intro i x hx
  unfold insert at hx
  by_cases hi : i = hash (key e)
  · subst hi
    rw [update_self] at hx
    obtain rfl | hx := mem_cons.mp hx
    · rfl
    · exact h _ x hx
  · rw [update_of_ne hi] at hx
    exact h i x hx

theorem placed_remove {b : ι → List ε} (h : Placed key hash b) (k : κ) :
    Placed key hash (remove key hash b k) := by
  intro i x hx
  unfold remove at hx
  by_cases hi : i = hash k
  · subst hi
    rw [update_self] at hx
    exact h _ x (mem_of_mem_eraseP hx)
  · rw [update_of_ne hi] at hx
    exact h i x hx

omit [DecidableEq ι] in
/-- In such a table an entry is in its chain. -/
theorem mem_chain {b : ι → List ε} (h : Placed key hash b) {i : ι} {e : ε} (he : e ∈ b i) :
    e ∈ chain key hash b (key e) := by
  rw [← h i e he] at he
  exact mem_filter.mpr ⟨he, by simp⟩

theorem remove_sublist (b : ι → List ε) (k : κ) (i : ι) :
    (remove key hash b k i).Sublist (b i) := by
  unfold remove
  by_cases hi : i = hash k
  · subst hi
    rw [update_self]
    exact eraseP_sublist
  · rw [update_of_ne hi]

end Buckets

end Pfs.Lib
