/-
  A text as lines, each with its end, and texts without certain characters at their ends.
-/
import Mathlib.Data.List.DropRight

namespace Pfs.Lib

open List

section Until

variable {α : Type} [BEq α] [LawfulBEq α] {c : α} {a : List α}

theorem bne_of_notMem (h : c ∉ a) : ∀ x ∈ a, (x != c) = true :=
  fun _ hx => bne_iff_ne.mpr fun he => h (he ▸ hx)

theorem takeWhile_ne_append_cons (h : c ∉ a) (s : List α) :
    (a ++ c :: s).takeWhile (· != c) = a := by
  rw [takeWhile_append_of_pos (bne_of_notMem h), takeWhile_cons_of_neg (by simp), append_nil]

theorem dropWhile_ne_append_cons (h : c ∉ a) (s : List α) :
    (a ++ c :: s).dropWhile (· != c) = c :: s := by
  rw [dropWhile_append_of_pos (bne_of_notMem h), dropWhile_cons_of_neg (by simp)]

end Until

section Lines

variable {α : Type} [DecidableEq α]

/-- The lines of a text, and what is behind the end of the last one. -/
def lines (nl : α) : List α → List (List α) × List α
  | [] => ([], [])
  | c :: t =>
    if c = nl then ([] :: (lines nl t).1, (lines nl t).2)
    else
      match (lines nl t).1 with
      | [] => ([], c :: (lines nl t).2)
      | l :: ls => ((c :: l) :: ls, (lines nl t).2)

/-- Lines with their ends, one after the other. -/
def joinLines (nl : α) (ls : List (List α)) : List α := ls.flatMap (· ++ [nl])

variable {nl : α}

omit [DecidableEq α] in
theorem joinLines_append (as bs : List (List α)) :
    joinLines nl (as ++ bs) = joinLines nl as ++ joinLines nl bs := flatMap_append

omit [DecidableEq α] in
theorem joinLines_singleton (l : List α) : joinLines nl [l] = l ++ [nl] := by
  rw [joinLines, flatMap_singleton]

theorem lines_append {l : List α} (h : nl ∉ l) (t : List α) :
    lines nl (l ++ nl :: t) = (l :: (lines nl t).1, (lines nl t).2) := by
  induction l with
  | nil =>
    rw [nil_append, lines, if_pos rfl]
  | cons c l ih =>
    rw [mem_cons, not_or] at h
    rw [cons_append, lines, if_neg (Ne.symm h.1), ih h.2]

/-- What was joined is given back. -/
theorem lines_join {ls : List (List α)} (h : ∀ l ∈ ls, nl ∉ l) :
    lines nl (joinLines nl ls) = (ls, []) := by
  induction ls with
  | nil => rfl
  | cons l ls ih =>
    have hrest := ih fun l' hl' => h l' (mem_cons_of_mem _ hl')
    rw [joinLines, flatMap_cons, append_assoc, singleton_append, lines_append (h l mem_cons_self)]
    rw [joinLines] at hrest
    rw [hrest]

theorem lines_mem (text : List α) : ∀ l ∈ (lines nl text).1, nl ∉ l ∧ ∀ c ∈ l, c ∈ text := by
  induction text with
  | nil =>
    intro l hl
    cases hl
  | cons c t ih =>
    intro l hl
    rw [lines] at hl
    split at hl
    · obtain rfl | hl := mem_cons.mp hl
      · exact ⟨by simp, fun _ h => (nomatch h)⟩
      · obtain ⟨hend, hsub⟩ := ih l hl
        exact ⟨hend, fun x hx => mem_cons_of_mem _ (hsub x hx)⟩
    rename_i hc
    cases hlines : (lines nl t).1 with
    | nil =>
      rw [hlines] at hl
      cases hl
    | cons l₁ ls =>
      rw [hlines] at hl ih
      obtain rfl | hl := mem_cons.mp hl
      · obtain ⟨hend, hsub⟩ := ih l₁ mem_cons_self
        refine ⟨by simp [Ne.symm hc, hend], fun x hx => ?_⟩
        obtain rfl | hx := mem_cons.mp hx
        · exact mem_cons_self
        · exact mem_cons_of_mem _ (hsub x hx)
      · obtain ⟨hend, hsub⟩ := ih l (mem_cons_of_mem _ hl)
        exact ⟨hend, fun x hx => mem_cons_of_mem _ (hsub x hx)⟩

/-- The lines and what is left behind are the text again. -/
theorem lines_text (text : List α) :
    joinLines nl (lines nl text).1 ++ (lines nl text).2 = text ∧ nl ∉ (lines nl text).2 := by
  induction text with
  | nil => exact ⟨rfl, by simp [lines]⟩
  | cons c t ih =>
    obtain ⟨htext, hrest⟩ := ih
    rw [lines]
    split
    · rename_i hc
      refine ⟨?_, hrest⟩
      rw [joinLines, flatMap_cons, append_assoc, ← joinLines, htext, hc]
      rfl
    · rename_i hc
      cases hlines : (lines nl t).1 with
      | nil =>
        rw [hlines] at htext
        exact ⟨congrArg (c :: ·) htext, by simp [Ne.symm hc, hrest]⟩
      | cons l ls =>
        rw [hlines] at htext
        exact ⟨congrArg (c :: ·) htext, hrest⟩

theorem lines_rest_eq_nil {text : List α} :
    (lines nl text).2 = [] ↔ text = [] ∨ text.getLast? = some nl := by
  obtain ⟨htext, hrest⟩ := @lines_text α _ nl text
  constructor
  · intro h
    rw [h, append_nil] at htext
    rcases eq_nil_or_concat (lines nl text).1 with hnil | ⟨ls, l, hls⟩
    · rw [hnil] at htext
      exact .inl htext.symm
    rw [hls, concat_eq_append, joinLines_append, joinLines_singleton] at htext
    right
    rw [← htext]
    simp
  · rintro (rfl | h)
    · rfl
    · by_contra hne
      rw [← htext, getLast?_append_of_ne_nil _ hne] at h
      exact hrest (mem_of_getLast? h)

end Lines

section Trim

variable {α : Type}

/-- Neither the first nor the last character is one of these. -/
def Trimmed (p : α → Bool) (l : List α) : Prop := l.dropWhile p = l ∧ l.rdropWhile p = l

/-- What is left when they are taken off, from the back first. -/
theorem trimmed_trim (p : α → Bool) (x : List α) : Trimmed p ((x.rdropWhile p).dropWhile p) := by
  refine ⟨dropWhile_idempotent p _, ?_⟩
  rw [rdropWhile_eq_self_iff]
  intro hl
  have hsuffix : (x.rdropWhile p).dropWhile p <:+ x.rdropWhile p := dropWhile_suffix p
  rw [hsuffix.getLast hl]
  exact rdropWhile_last_not p x _

/-- What is left when they are taken off, from the front first. -/
theorem trimmed_strip (p : α → Bool) (x : List α) :
    Trimmed p ((x.dropWhile p).rdropWhile p) := by
  refine ⟨?_, rdropWhile_idempotent p _⟩
  rw [dropWhile_eq_self_iff]
  intro hl
  have hpre : (x.dropWhile p).rdropWhile p <+: x.dropWhile p := rdropWhile_prefix p _
  rw [hpre.getElem hl]
  exact dropWhile_eq_self_iff.mp (dropWhile_idempotent p x) _

theorem trimmed_of_all {p : α → Bool} {l : List α} (h : ∀ c ∈ l, p c = false) : Trimmed p l := by
  refine ⟨?_, ?_⟩
  · cases l with
    | nil => rfl
    | cons c l =>
      rw [dropWhile_cons_of_neg]
      simp [h c mem_cons_self]
  · rw [rdropWhile_eq_self_iff]
    intro hl
    simp [h _ (getLast_mem hl)]

end Trim

end Pfs.Lib
