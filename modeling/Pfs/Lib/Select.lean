/-
  The best of a list, kept while the list is gone through.

  What "better" has to be for this is said by `Prefers`: a preorder of which it decides the strict
  part.
-/
import Mathlib.Data.List.Basic

namespace Pfs.Lib

variable {α : Type}

/-- The candidate `a` or, if it is better, `b`. -/
def keep (better : α → α → Bool) (a b : α) : α := if better a b then b else a

/-- The better of a candidate, if there is one, and another. -/
def offer (better : α → α → Bool) : Option α → α → Option α
  | none, b => some b
  | some a, b => some (keep better a b)

/-- `better a b` says that `b` is strictly above `a` in the preorder `le`. -/
structure Prefers (le : α → α → Prop) (better : α → α → Bool) : Prop where
  refl : ∀ a, le a a
  trans : ∀ a b c, le a b → le b c → le a c
  up : ∀ a b, better a b = true → le a b
  down : ∀ a b, better a b = false → le b a

variable {le : α → α → Prop} {better : α → α → Bool}

theorem keep_eq_or (better : α → α → Bool) (a b : α) :
    keep better a b = a ∨ keep better a b = b := by
  unfold keep
  split
  · exact .inr rfl
  · exact .inl rfl

theorem Prefers.left (P : Prefers le better) (a b : α) : le a (keep better a b) := by
  unfold keep
  split
  · rename_i h
    exact P.up a b h
  · exact P.refl a

theorem Prefers.right (P : Prefers le better) (a b : α) : le b (keep better a b) := by
  unfold keep
  split
  · exact P.refl b
  · rename_i h
    exact P.down a b (by simpa using h)

/-- The candidate at the end is one of those seen. -/
theorem foldl_keep_mem (better : α → α → Bool) (a : α) (l : List α) :
    l.foldl (keep better) a = a ∨ l.foldl (keep better) a ∈ l := by
  induction l generalizing a with
  | nil => exact .inl rfl
  | cons b l ih =>
    rw [List.foldl_cons]
    obtain h | h := ih (keep better a b)
    · rw [h]
      obtain hk | hk := keep_eq_or better a b
      · exact .inl hk
      · rw [hk]
        exact .inr List.mem_cons_self
    · exact .inr (List.mem_cons_of_mem b h)

theorem foldl_keep_of_none {a : α} {l : List α} (h : ∀ b ∈ l, better a b = false) :
    l.foldl (keep better) a = a := by
  induction l with
  | nil => rfl
  | cons b l ih =>
    have hkeep : keep better a b = a := by
      unfold keep
      rw [h b List.mem_cons_self]
      rfl
    rw [List.foldl_cons, hkeep]
    exact ih fun c hc => h c (List.mem_cons_of_mem b hc)

theorem foldl_keep_start (P : Prefers le better) (a : α) (l : List α) :
    le a (l.foldl (keep better) a) := by
  induction l generalizing a with
  | nil => exact P.refl a
  | cons b l ih => exact P.trans _ _ _ (P.left a b) (ih _)

/-- Nothing seen is better. -/
theorem foldl_keep_le (P : Prefers le better) (a : α) {l : List α} {x : α} (hx : x ∈ l) :
    le x (l.foldl (keep better) a) := by
  induction l generalizing a with
  | nil => cases hx
  | cons b l ih =>
    obtain rfl | hx := List.mem_cons.mp hx
    · exact P.trans _ _ _ (P.right a x) (foldl_keep_start P _ l)
    · exact ih _ hx

/-- It is an entry of the list exactly when some entry is at least as good as the value that the
    search started with. -/
theorem foldl_keep_mem_iff (P : Prefers le better) (hanti : ∀ a b, le a b → le b a → a = b) (a : α)
    (l : List α) : l.foldl (keep better) a ∈ l ↔ ∃ x ∈ l, le a x := by
  constructor
  · intro h
    exact ⟨_, h, foldl_keep_start P a l⟩
  · intro h
    obtain ⟨x, hx, hax⟩ := h
    obtain he | he := foldl_keep_mem better a l
    · have hxa := foldl_keep_le P a hx
      rw [he] at hxa ⊢
      rw [hanti a x hax hxa]
      exact hx
    · exact he

theorem foldl_offer_some (better : α → α → Bool) (a : α) (l : List α) :
    l.foldl (offer better) (some a) = some (l.foldl (keep better) a) := by
  induction l generalizing a with
  | nil => rfl
  | cons b l ih => exact ih _

/-- The same search with no candidate to begin with. -/
theorem foldl_offer (P : Prefers le better) (l : List α) :
    l = [] ∧ l.foldl (offer better) none = none ∨
      ∃ a ∈ l, l.foldl (offer better) none = some a ∧ ∀ x ∈ l, le x a := by
  cases l with
  | nil => exact .inl ⟨rfl, rfl⟩
  | cons a l =>
    refine .inr ⟨l.foldl (keep better) a, ?_, foldl_offer_some better a l, ?_⟩
    · obtain h | h := foldl_keep_mem better a l
      · rw [h]
        exact List.mem_cons_self
      · exact List.mem_cons_of_mem a h
    · intro x hx
      obtain rfl | hx := List.mem_cons.mp hx
      · exact foldl_keep_start P x l
      · exact foldl_keep_le P a hx

end Pfs.Lib
