/-
  The path functions of network/pfs_localfile.c: `trim_sep` and `storage_convert`.

  A path is the bytes of a C string before its terminator. `storage_convert` keeps of a name the
  digit directories directly before its last component and puts `datadir` in front; its backward
  scan does not stop at the start of the field, so the bytes before the record are an argument.

  Main result: `storageConvert_confined`.
-/
import Pfs.Lib.Lines

namespace Pfs

open List

/-- The bytes of a C string. -/
abbrev Path := List UInt8

/-- Undefined behaviour: a NULL task is dereferenced, or a fixed-size buffer is overrun. -/
inductive Fault where
  | nullDeref
  | overflow
  deriving DecidableEq, Repr

def slash : UInt8 := 47
def dot : UInt8 := 46

def isDigit (c : UInt8) : Bool := 48 ≤ c && c ≤ 57

def isDirChar (c : UInt8) : Bool := isDigit c || c == slash

/-! ## 1. Splitting at the last separator -/

/-- `strrchr(s, '/')`: what is before the last separator and what is behind it. -/
def splitLast : Path → Option (Path × Path)
  | [] => none
  | c :: s =>
    match splitLast s with
    | some (d, n) => some (c :: d, n)
    | none => if c = slash then some ([], s) else none

variable {s pre datadir filename : Path}

theorem splitLast_eq_none : splitLast s = none ↔ slash ∉ s := by
  induction s with
  | nil => simp [splitLast]
  | cons c s ih =>
    cases h : splitLast s with
    | none =>
      have hs := ih.mp h
      by_cases hc : c = slash
      · simp [splitLast, h, hc]
      · simp [splitLast, h, hc, hs, Ne.symm hc]
    | some p =>
      have hs : slash ∈ s := by
        by_contra hn
        rw [ih.mpr hn] at h
        cases h
      simp [splitLast, h, hs]

theorem splitLast_eq_some {d n : Path} (h : splitLast s = some (d, n)) :
    s = d ++ slash :: n ∧ slash ∉ n := by
  induction s generalizing d with
  | nil => cases h
  | cons c s ih =>
    cases hs : splitLast s with
    | none =>
      by_cases hc : c = slash
      · simp only [splitLast, hs, if_pos hc, Option.some.injEq, Prod.mk.injEq] at h
        obtain ⟨rfl, rfl⟩ := h
        exact ⟨by rw [hc]; rfl, splitLast_eq_none.mp hs⟩
      · simp [splitLast, hs, hc] at h
    | some p =>
      obtain ⟨d', n'⟩ := p
      simp only [splitLast, hs, Option.some.injEq, Prod.mk.injEq] at h
      obtain ⟨rfl, rfl⟩ := h
      obtain ⟨he, hn⟩ := ih hs
      exact ⟨by rw [he]; rfl, hn⟩

theorem splitLast_append (d : Path) {n : Path} (hn : slash ∉ n) :
    splitLast (d ++ slash :: n) = some (d, n) := by
  induction d with
  | nil => simp [splitLast, splitLast_eq_none.mpr hn]
  | cons c d ih => simp [splitLast, ih]

/-! ## 2. `trim_sep` -/

/-- The loop of `trim_sep` for the separator '/'; the flag says that the last byte kept was one. -/
def trimAux : Bool → Path → Path
  | _, [] => []
  | after, c :: s => if after && c == slash then trimAux true s else c :: trimAux (c == slash) s

/-- `trim_sep(s, '/')`: runs of separators become one. -/
def trimSep (s : Path) : Path := trimAux false s

/-- The flag of `trimAux` behind a string. -/
def endsSlash (after : Bool) (s : Path) : Bool := (s.getLast?.map (· == slash)).getD after

theorem endsSlash_cons (after : Bool) (c : UInt8) (s : Path) :
    endsSlash after (c :: s) = endsSlash (c == slash) s := by
  cases s with
  | nil => rfl
  | cons d s => rfl

theorem trimAux_append (after : Bool) (s t : Path) :
    trimAux after (s ++ t) = trimAux after s ++ trimAux (endsSlash after s) t := by
  induction s generalizing after with
  | nil => rfl
  | cons c s ih =>
    rw [endsSlash_cons]
    by_cases hc : (after && c == slash) = true
    · obtain ⟨rfl, hcs⟩ : after = true ∧ (c == slash) = true := by simpa using hc
      simp only [cons_append, trimAux, hcs, Bool.and_self, if_true, ih]
    · simp only [cons_append, trimAux, hc, if_false, ih, Bool.false_eq_true]

theorem trimAux_of_notMem (after : Bool) (h : slash ∉ s) : trimAux after s = s := by
  induction s generalizing after with
  | nil => rfl
  | cons c s ih =>
    have hc : (c == slash) = false := by
      simpa using fun e => h (by simp [e])
    simp only [trimAux, hc, Bool.and_false, Bool.false_eq_true, if_false]
    rw [ih _ (fun hs => h (mem_cons_of_mem _ hs))]

theorem trimSep_append_of_notMem (s : Path) {t : Path} (h : slash ∉ t) :
    trimSep (s ++ t) = trimSep s ++ t := by
  unfold trimSep
  rw [trimAux_append, trimAux_of_notMem _ h]

theorem trimSep_append_slash (s : Path) :
    trimSep (s ++ [slash]) = if endsSlash false s then trimSep s else trimSep s ++ [slash] := by
  unfold trimSep
  rw [trimAux_append]
  cases h : endsSlash false s with
  | true => simp [trimAux, slash]
  | false => simp [trimAux, slash]

theorem mem_trimAux {after : Bool} (h : slash ∈ s) (ha : after = false) :
    slash ∈ trimAux after s := by
  induction s generalizing after with
  | nil => cases h
  | cons c s ih =>
    subst ha
    simp only [trimAux, Bool.false_and, Bool.false_eq_true, if_false, mem_cons]
    by_cases hc : c = slash
    · exact .inl hc.symm
    have hcs : (c == slash) = false := by simpa using hc
    rw [hcs]
    exact .inr (ih ((mem_cons.mp h).resolve_left (Ne.symm hc)) rfl)

/-! ## 3. `storage_convert` -/

/-- Where the backward scan of `storage_convert` stops: the digit directories directly before the
    last separator, from the leftmost separator among them on. `pre` are the bytes in front of
    the record. -/
def digitDirs (pre dir : Path) : Path :=
  (List.rtakeWhile isDirChar (pre ++ dir)).dropWhile (· != slash)

/-- `storage_convert`: the return name and the stored path, `none` for a name without a separator
    (`LOCALFILE_DIR_E`). The path is composed in 256 bytes. -/
def storageConvert (pre datadir filename : Path) : Except Fault (Option (Path × Path)) :=
  match splitLast filename with
  | none => .ok none
  | some (dir, name) =>
    let last := digitDirs pre dir ++ slash :: name
    if 256 ≤ datadir.length + last.length then .error .overflow
    else .ok (some (last.take 255, trimSep (datadir ++ last)))

/-- Directories in front of a name: each one with a separator before it. -/
def dirPath (ds : List Path) : Path := ds.flatMap (slash :: ·)

/-- `datadir` followed by directories made of decimal digits and a last component without a
    separator; runs of separators are written as one. -/
def Confined (datadir p : Path) : Prop :=
  ∃ (ds : List Path) (name : Path), (∀ d ∈ ds, ∀ c ∈ d, isDigit c = true) ∧ slash ∉ name ∧
    p = trimSep (datadir ++ dirPath ds ++ slash :: name)

/-- `q` is `datadir` or one of the directories above it. -/
def LeadsTo (datadir q : Path) : Prop :=
  q = trimSep datadir ∨ ∃ c, trimSep datadir = q ++ slash :: c

theorem exists_dirPath (h : ∀ c ∈ s, isDirChar c = true) (h0 : s = [] ∨ ∃ t, s = slash :: t) :
    ∃ ds : List Path, (∀ d ∈ ds, ∀ c ∈ d, isDigit c = true) ∧ s = dirPath ds := by
  -- strip the first component: induction on the length
  induction hl : s.length using Nat.strongRecOn generalizing s with
  | ind n ih =>
    rcases h0 with rfl | ⟨t, rfl⟩
    · exact ⟨[], by simp, rfl⟩
    have hsplit : t = t.takeWhile isDigit ++ t.dropWhile isDigit :=
      takeWhile_append_dropWhile.symm
    have hrest : t.dropWhile isDigit = [] ∨ ∃ u, t.dropWhile isDigit = slash :: u := by
      cases hd : t.dropWhile isDigit with
      | nil => exact .inl rfl
      | cons c u =>
        right
        have hc : isDigit c = false := by
          have := head?_dropWhile_not isDigit t
          rw [hd] at this
          simpa using this
        have hm : c ∈ slash :: t := by
          rw [hsplit, hd]
          simp
        have hcs := h c hm
        simp only [isDirChar, hc, Bool.false_or, beq_iff_eq] at hcs
        exact ⟨u, by rw [hcs]⟩
    have hlen : (t.dropWhile isDigit).length < n := by
      have := congrArg List.length hsplit
      simp only [length_append] at this
      simp only [length_cons] at hl
      omega
    obtain ⟨ds, hds, he⟩ := ih _ hlen (s := t.dropWhile isDigit)
      (fun c hc => h c (mem_cons_of_mem _ (hsplit ▸ mem_append_right _ hc))) hrest rfl
    refine ⟨t.takeWhile isDigit :: ds, ?_, ?_⟩
    · intro d hd
      rcases mem_cons.mp hd with rfl | hd
      · exact fun c hc => mem_takeWhile_imp hc
      · exact hds d hd
    · show slash :: t = slash :: (t.takeWhile isDigit ++ dirPath ds)
      rw [← he, ← hsplit]

theorem digitDirs_dirChar (pre dir : Path) : ∀ c ∈ digitDirs pre dir, isDirChar c = true := by
  intro c hc
  have h1 : c ∈ List.rtakeWhile isDirChar (pre ++ dir) :=
    (dropWhile_sublist _).subset hc
  exact mem_rtakeWhile_imp h1

theorem rtakeWhile_append_of_all {t : Path} (s : Path) (h : ∀ c ∈ t, isDirChar c = true) :
    List.rtakeWhile isDirChar (s ++ t) = List.rtakeWhile isDirChar s ++ t := by
  rw [rtakeWhile, reverse_append, takeWhile_append_of_pos fun c hc => h c (mem_reverse.mp hc),
    reverse_append, reverse_reverse, rtakeWhile]

theorem digitDirs_of_stop {dir : Path} (h : dir.all isDirChar = false) (pre : Path) :
    digitDirs pre dir = digitDirs [] dir := by
  have hlen : (dir.reverse.takeWhile isDirChar).length ≠ dir.reverse.length := by
    intro he
    have hall := takeWhile_eq_self_iff.mp (( takeWhile_prefix _).eq_of_length he)
    rw [all_eq_true.mpr fun c hc => hall c (mem_reverse.mpr hc)] at h
    cases h
  rw [digitDirs, digitDirs, rtakeWhile, reverse_append, takeWhile_append, if_neg hlen]
  rfl

theorem digitDirs_head (pre dir : Path) :
    digitDirs pre dir = [] ∨ ∃ t, digitDirs pre dir = slash :: t := by
  unfold digitDirs
  cases h : (List.rtakeWhile isDirChar (pre ++ dir)).dropWhile (· != slash) with
  | nil => exact .inl rfl
  | cons c t =>
    have hc := head?_dropWhile_not (· != slash) (List.rtakeWhile isDirChar (pre ++ dir))
    rw [h] at hc
    exact .inr ⟨t, by simpa using hc⟩

/-- **Every converted name is confined.** -/
theorem storageConvert_confined {ret p : Path}
    (h : storageConvert pre datadir filename = .ok (some (ret, p))) : Confined datadir p := by
  unfold storageConvert at h
  cases hs : splitLast filename with
  | none =>
    rw [hs] at h
    cases h
  | some q =>
    obtain ⟨dir, name⟩ := q
    rw [hs] at h
    simp only at h
    split at h
    · cases h
    cases h
    obtain ⟨ds, hds, he⟩ := exists_dirPath (digitDirs_dirChar pre dir)
      (digitDirs_head pre dir)
    exact ⟨ds, name, hds, (splitLast_eq_some hs).2, by rw [he, append_assoc]⟩

theorem trimAux_length_le (after : Bool) (s : Path) : (trimAux after s).length ≤ s.length := by
  induction s generalizing after with
  | nil => exact Nat.le_refl _
  | cons c s ih =>
    unfold trimAux
    split
    · exact Nat.le_succ_of_le (ih _)
    · exact Nat.succ_le_succ (ih _)

theorem storageConvert_length {ret p : Path}
    (h : storageConvert pre datadir filename = .ok (some (ret, p))) : p.length < 256 := by
  unfold storageConvert at h
  split at h
  · cases h
  rename_i dir name _
  simp only at h
  split at h
  · cases h
  rename_i hl
  cases h
  have ht := trimAux_length_le false (datadir ++ (digitDirs pre dir ++ slash :: name))
  simp only [length_append] at ht hl
  unfold trimSep
  omega

theorem storageConvert_none
    (h : storageConvert pre datadir filename = .ok none) : slash ∉ filename := by
  unfold storageConvert at h
  cases hs : splitLast filename with
  | none => exact splitLast_eq_none.mp hs
  | some q =>
    rw [hs] at h
    simp only at h
    split at h <;> cases h

/-! ## 4. Confined paths -/

theorem trimSep_split {x name q r : Path} (hn : slash ∉ name)
    (h : trimSep (x ++ slash :: name) = q ++ slash :: r) :
    q = trimSep x ∨ ∃ c, trimSep x = q ++ slash :: c := by
  have hx : x ++ slash :: name = x ++ [slash] ++ name := by simp
  rw [hx, trimSep_append_of_notMem _ hn] at h
  obtain ⟨t, ht⟩ : ∃ t, trimSep (x ++ [slash]) = q ++ slash :: t := by
    rcases append_eq_append_iff.mp h with ⟨a, -, ha⟩ | ⟨c, hc, hr⟩
    · exact absurd (ha ▸ mem_append_right _ mem_cons_self) hn
    cases c with
    | nil => exact absurd (by rw [nil_append] at hr; exact hr ▸ mem_cons_self) hn
    | cons b c =>
      rw [cons_append, List.cons.injEq] at hr
      exact ⟨c, by rw [hc, hr.1]⟩
  rw [trimSep_append_slash] at ht
  split at ht
  · exact .inr ⟨t, ht⟩
  rcases append_eq_append_iff.mp ht with ⟨a, ha, hs⟩ | ⟨c, hc, hs⟩
  · cases a with
    | nil => exact .inl (by rw [ha, append_nil])
    | cons b a =>
      rw [cons_append, List.cons.injEq] at hs
      have := hs.2
      simp at this
  · cases c with
    | nil => exact .inl (by rw [hc, append_nil])
    | cons b c =>
      rw [cons_append, List.cons.injEq] at hs
      exact .inr ⟨c, by rw [hc, hs.1]⟩

namespace Confined

variable {datadir p : Path}

theorem append (h : Confined datadir p) {s : Path} (hs : slash ∉ s) :
    Confined datadir (p ++ s) := by
  obtain ⟨ds, name, hds, hn, rfl⟩ := h
  refine ⟨ds, name ++ s, hds, by simp [hn, hs], ?_⟩
  rw [← trimSep_append_of_notMem _ hs, append_assoc, cons_append]

theorem slash_mem (h : Confined datadir p) : slash ∈ p := by
  obtain ⟨ds, name, -, -, rfl⟩ := h
  exact mem_trimAux (by simp) rfl

/-- **The directories on the way to a confined path** are confined, or lead to `datadir`. -/
theorem split (h : Confined datadir p) {q r : Path} (hp : p = q ++ slash :: r) :
    Confined datadir q ∨ LeadsTo datadir q := by
  obtain ⟨ds, name, hds, hn, rfl⟩ := h
  induction ds using List.reverseRecOn generalizing name r with
  | nil =>
    rw [show dirPath [] = [] from rfl, append_nil] at hp
    exact .inr (trimSep_split hn hp)
  | append_singleton ds d ih =>
    have hd : slash ∉ d := fun hs => by
      have := hds d (by simp) slash hs
      exact absurd this (by decide)
    have hx : datadir ++ dirPath (ds ++ [d]) = datadir ++ dirPath ds ++ slash :: d := by
      simp [dirPath]
    have hds' : ∀ e ∈ ds, ∀ c ∈ e, isDigit c = true := fun e he => hds e (by simp [he])
    rw [hx] at hp
    rcases trimSep_split hn hp with rfl | ⟨c, hc⟩
    · exact .inl ⟨ds, d, hds', hd, rfl⟩
    · exact ih d hds' hd hc

end Confined

end Pfs
