/-
  The end of a line in the value of a command: the loop that `do_confupda`, `set_dirtime`,
  `poss_sync_file`, `poss_sync_dir` and `poss_off_on_line` have in common (`cutLine` of
  `PossCommand`).

  The count is decremented before it is tested, and the byte looked at is that of another pointer:
  of a value with `n` bytes the first `n - 1` are looked at, and of an empty one all that follows.

  Main results: `cutLine_strips_iff`, `cutLine_leaves`.
-/
import Pfs.PossSafe

namespace Pfs.Cmd

open Lib List

/-! ## 1. What the loop looks at -/

def lineEnd (c : UInt8) : Bool := c == 13 || c == 10

/-- The positions that `cutLoop` looks at. -/
def cutSeen (b : Buf MAX_VALUE_LEN) : Nat → Nat → List Nat
  | 0, _ => []
  | left + 1, p =>
    p :: match b.get p with
      | .error _ => []
      | .ok c => if c = 13 ∨ c = 10 then [] else cutSeen b left (p + 1)

/-- The loop over an array that holds `v` stays in `v` and its terminator, and leaves the longest
    beginning of `v` without an end of line. -/
structure Stripped (b : Buf MAX_VALUE_LEN) (v : Path) : Prop where
  ends : Ends (cutLine b) fun b' => b'.Holds 0 (v.takeWhile fun c => !lineEnd c)
  seen : ∀ p ∈ cutSeen b (turns v) 0, p ≤ v.length

def EndsLast (v : Path) : Prop := v.getLast?.any lineEnd = true ∧ v.dropLast.any lineEnd = false

instance (v : Path) : Decidable (EndsLast v) := inferInstanceAs (Decidable (_ ∧ _))

section Loop

variable {b : Buf MAX_VALUE_LEN} {v : Path}

/-- **These are the bytes the loop reads**: it leaves the array exactly if one of them is
    outside. -/
theorem cutLoop_outside_iff (left p : Nat) :
    cutLoop b left p = .error .outside ↔ ∃ q ∈ cutSeen b left p, MAX_VALUE_LEN ≤ q := by
  induction left generalizing p with
  | zero => simp [cutLoop, cutSeen]
  | succ left ih =>
    rw [cutLoop, cutSeen]
    have hsize := b.size
    cases hget : b.bytes[p]? with
    | none =>
      have hp := getElem?_eq_none_iff.mp hget
      simp [Buf.get, hget, hsize ▸ hp]
    | some c =>
      obtain ⟨hp, -⟩ := List.getElem?_eq_some_iff.mp hget
      rw [hsize] at hp
      have hq : ¬ MAX_VALUE_LEN ≤ p := Nat.not_le.mpr hp
      simp only [Buf.get, hget, ok_bind]
      split
      · simp [Buf.set, Buf.write, Nat.succ_le_of_lt hp, hq]
      · simp [ih, hq]

theorem cutSeen_lt (left p q : Nat) (h : q ∈ cutSeen b left p) : q < p + left := by
  induction left generalizing p with
  | zero => cases h
  | succ left ih =>
    rw [cutSeen, mem_cons] at h
    obtain rfl | h := h
    · omega
    split at h
    · cases h
    split at h
    · cases h
    · have := ih (p + 1) h
      omega

theorem cutSeen_nil (h : b.Holds 0 []) : 1 ∈ cutSeen b (turns []) 0 := by
  have hget : b.get 0 = .ok 0 := h.get_nul
  have hturns : turns [] = 4294967293 + 1 + 1 := rfl
  rw [hturns, cutSeen, hget]
  simp only [if_neg (show ¬ ((0 : UInt8) = 13 ∨ (0 : UInt8) = 10) by decide)]
  rw [cutSeen]
  simp

theorem not_stripped_nil (h : b.Holds 0 []) : ¬ Stripped b [] := fun hs =>
  absurd (hs.seen 1 (cutSeen_nil h)) (by decide)

/-! ## 2. What it leaves -/

theorem cutText_eq (v : Path) :
    cutText v = if v.dropLast.any lineEnd then v.takeWhile fun c => !lineEnd c else v := rfl

theorem cutText_endsLast (h : EndsLast v) : cutText v = v := by
  rw [cutText_eq, h.2, if_neg Bool.false_ne_true]

theorem cutText_takeWhile (h : ¬ EndsLast v) : cutText v = v.takeWhile fun c => !lineEnd c := by
  rw [cutText_eq]
  cases hany : v.dropLast.any lineEnd with
  | true => rfl
  | false =>
    rw [if_neg Bool.false_ne_true]
    refine (takeWhile_eq_self_iff.mpr fun c hc => ?_).symm
    rw [Bool.not_eq_true', ← Bool.not_eq_true]
    intro hend
    have hne : v ≠ [] := ne_nil_of_mem hc
    rw [← dropLast_append_getLast hne, mem_append, mem_singleton] at hc
    obtain hc | rfl := hc
    · exact absurd hend (any_eq_false.mp hany c hc)
    · exact h ⟨by rw [getLast?_eq_getLast_of_ne_nil hne]; exact hend, hany⟩

theorem not_stripped_last (h : b.Holds 0 v) (hlast : EndsLast v) : ¬ Stripped b v := by
  intro hs
  have hne : v ≠ [] := by
    rintro rfl
    exact absurd hlast (by decide)
  obtain ⟨b₁, hb₁, hleft⟩ := hs.ends
  obtain ⟨b₂, hb₂, hcut⟩ := cutLine_ends h hne
  cases hb₁.symm.trans hb₂
  rw [cutText_endsLast hlast] at hcut
  have hall := takeWhile_eq_self_iff.mp (hleft.unique hcut)
  have hmem := hall _ (getLast_mem hne)
  have hend := hlast.1
  rw [getLast?_eq_getLast_of_ne_nil hne, Option.any_some] at hend
  rw [hend] at hmem
  cases hmem

theorem stripped_of (h : b.Holds 0 v) (hne : v ≠ []) (hlast : ¬ EndsLast v) : Stripped b v where
  ends := cutText_takeWhile hlast ▸ cutLine_ends h hne
  seen := fun p hp => by
    have hlt := cutSeen_lt _ _ _ hp
    rw [turns, if_neg hne] at hlt
    omega

end Loop

/-- **The loop strips a value** exactly if the value is not empty, and its first end of line, if it
    has one, is not its last byte. -/
theorem cutLine_strips_iff {b : Buf MAX_VALUE_LEN} {v : Path} (h : b.Holds 0 v) :
    Stripped b v ↔ v ≠ [] ∧ ¬ EndsLast v := by
  constructor
  · intro hs
    refine ⟨?_, fun hlast => not_stripped_last h hlast hs⟩
    rintro rfl
    exact not_stripped_nil h hs
  · rintro ⟨hne, hlast⟩
    exact stripped_of h hne hlast

/-- "a\r\n" is cut. -/
theorem cutLine_strips_crlf :
    Stripped (Buf.ofText MAX_VALUE_LEN [97, 13, 10] (by decide)) [97, 13, 10] :=
  (cutLine_strips_iff (Buf.holds_ofText _ (by decide))).mpr ⟨by decide, by decide⟩

/-- **The last byte stays, and an empty value is read beyond its end**: of "a\n" everything is left,
    and for an empty value the loop looks at the byte behind the terminator. -/
theorem cutLine_leaves :
    (Ends (cutLine (Buf.ofText MAX_VALUE_LEN [97, 10] (by decide))) fun b' => b'.Holds 0 [97, 10]) ∧
      ¬ Stripped (Buf.ofText MAX_VALUE_LEN [97, 10] (by decide)) [97, 10] ∧
      1 ∈ cutSeen (Buf.ofText MAX_VALUE_LEN [] (by decide)) (turns []) 0 ∧
      ¬ Stripped (Buf.ofText MAX_VALUE_LEN [] (by decide)) [] := by
  have hlast : EndsLast [97, 10] := by decide
  refine ⟨?_, not_stripped_last (Buf.holds_ofText _ (by decide)) hlast,
    cutSeen_nil (Buf.holds_ofText _ (by decide)), not_stripped_nil (Buf.holds_ofText _ (by decide))⟩
  exact cutLine_ends (Buf.holds_ofText _ (by decide)) (by decide)

end Pfs.Cmd
