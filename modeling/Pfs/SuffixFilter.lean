/-
  The suffixes of the files that are synchronised: how `init_file_filter` takes them from
  the configuration (network/pfs_file_filter.c), and what `check_file_filter` (`DirServe`)
  then lets pass.

  A value of "file_allow_suffix" has items between '|', and an item may have a '*' in front. Where
  an item is empty the loop of `sub_init_filter` is continued without the pointer being advanced: it
  then stands at the NUL that ends the item, and all that follows is lost.

  Main results: `filter_exact_iff`, `filter_drops`.
-/
import Pfs.ConfigMap
import Pfs.DirServe

namespace Pfs

open Lib Conf List

/-! ## 1. The source -/

def pipe : UInt8 := 124

/-- `if (*s == '*') s++` -/
def unstar : Path → Path
  | [] => []
  | c :: s => if c = 42 then s else c :: s

/-- `sub_init_filter`: the list, newest suffix first. -/
def subInitFilter (s : Path) (mlist : List Path) : List Path :=
  if pipe ∈ s then
    let item := unstar (s.takeWhile (· != pipe))
    -- `continue` with `s` at the NUL that is now behind the item
    if item = [] then subInitFilter [] mlist
    else subInitFilter ((s.dropWhile (· != pipe)).drop 1) (item :: mlist)
  else if unstar s = [] then mlist
  else unstar s :: mlist
termination_by s.length
decreasing_by
  · rename_i hpipe _
    exact length_pos_of_mem hpipe
  · rename_i hpipe _
    have hle := (dropWhile_sublist (· != pipe) (l := s)).length_le
    have hpos := length_pos_of_mem hpipe
    rw [length_drop]
    omega

/-- The loop of `init_file_filter` from `i` on, at most `n` times. -/
def allowLoop (s : Store) : Nat → Nat → List Path → List Path
  | 0, _, mlist => mlist
  | n + 1, i, mlist =>
    match getMultivalue (ascii "file_allow_suffix") i s with
    | none => mlist
    | some val => allowLoop s n (i + 1) (if val = [] then mlist else subInitFilter val mlist)

/-- `init_file_filter` -/
def initFileFilter (s : IntStore) : FileFilter × IntStore :=
  let r := s.getIntval (ascii "file_disable_filter") 1
  if r.1 ≠ 0 then (⟨true, []⟩, r.2)
  else (⟨false, allowLoop r.2.store (r.2.store.mcs.length + 1) 0 []⟩, r.2)

/-! ## 2. What is stored -/

/-- The items of a value, without the '*'. -/
def items (val : Path) : List Path := (val.splitOn pipe).map unstar

/-- Those in front of the first empty one. -/
def kept (val : Path) : List Path := (items val).takeWhile (· != [])

def dropped (val : Path) : List Path := ((items val).dropWhile (· != [])).filter (· != [])

/-- The values of "file_allow_suffix", in the order they were put. -/
def suffixValues (s : Store) : List Path := (valuesOf (ascii "file_allow_suffix") s).reverse

theorem items_pipe {a b : Path} (ha : pipe ∉ a) : items (a ++ pipe :: b) = unstar a :: items b := by
  rw [items, splitOn_append_cons_self, splitOn_eq_singleton ha]
  rfl

theorem items_last {a : Path} (ha : pipe ∉ a) : items a = [unstar a] := by
  rw [items, splitOn_eq_singleton ha]
  rfl

theorem subInitFilter_eq (s : Path) (mlist : List Path) :
    subInitFilter s mlist = (kept s).reverse ++ mlist := by
  induction s, mlist using subInitFilter.induct with
  | case1 s mlist hpipe item hnil ih =>
    obtain ⟨a, b, rfl, ha⟩ := eq_append_cons_of_mem hpipe
    have hitem : unstar a = [] := by
      simpa only [item, takeWhile_ne_append_cons ha] using hnil
    rw [subInitFilter, if_pos hpipe, if_pos hnil, ih, kept, kept, items_pipe ha, hitem]
    rfl
  | case2 s mlist hpipe item hne ih =>
    obtain ⟨a, b, rfl, ha⟩ := eq_append_cons_of_mem hpipe
    have hitem : item = unstar a := by
      simp only [item, takeWhile_ne_append_cons ha]
    have hrest : ((a ++ pipe :: b).dropWhile (· != pipe)).drop 1 = b := by
      rw [dropWhile_ne_append_cons ha]
      rfl
    rw [subInitFilter, if_pos hpipe, if_neg hne, ih, hrest, kept, kept, items_pipe ha,
      takeWhile_cons_of_pos (by simpa [hitem] using hne)]
    simp [hitem]
  | case3 s mlist hpipe hnil =>
    rw [subInitFilter, if_neg hpipe, if_pos hnil, kept, items_last hpipe, hnil]
    rfl
  | case4 s mlist hpipe hne =>
    rw [subInitFilter, if_neg hpipe, if_neg hne, kept, items_last hpipe,
      takeWhile_cons_of_pos (by simpa using hne)]
    rfl

theorem allowLoop_eq (s : Store) (n : Nat) : ∀ (i : Nat) (mlist : List Path),
    (suffixValues s).length < i + n →
      allowLoop s n i mlist = (((suffixValues s).drop i).flatMap kept).reverse ++ mlist := by
  induction n with
  | zero =>
    intro i mlist hlen
    rw [drop_eq_nil_of_le (by omega)]
    rfl
  | succ n ih =>
    intro i mlist hlen
    have hget : getMultivalue (ascii "file_allow_suffix") i s = (suffixValues s)[i]? :=
      getMultivalue_eq s i
    rw [allowLoop, hget]
    by_cases hi : i < (suffixValues s).length
    · rw [getElem?_eq_getElem hi, drop_eq_getElem_cons hi]
      simp only
      rw [ih (i + 1) _ (by omega)]
      split
      · rename_i hnil
        rw [hnil]
        rfl
      · rw [subInitFilter_eq, flatMap_cons, reverse_append, append_assoc]
    · rw [getElem?_eq_none (Nat.not_lt.mp hi), drop_eq_nil_of_le (Nat.not_lt.mp hi)]
      rfl

theorem getIntval_store (s : IntStore) (key : Path) (d : Int) :
    (s.getIntval key d).2.store = s.store := by
  unfold IntStore.getIntval
  split
  · rfl
  split
  · split
    · rfl
    · rfl
  · rfl

theorem initFileFilter_allow {s : IntStore}
    (hon : (s.getIntval (ascii "file_disable_filter") 1).1 = 0) :
    (initFileFilter s).1 = ⟨false, ((suffixValues s.store).flatMap kept).reverse⟩ := by
  have hlen : (suffixValues s.store).length ≤ s.store.mcs.length := by
    rw [suffixValues, length_reverse, valuesOf, length_map]
    exact length_filter_le _ _
  unfold initFileFilter
  simp only [getIntval_store]
  rw [if_neg (not_not.mpr hon), allowLoop_eq _ _ _ _ (by omega), drop_zero, append_nil]

/-! ## 3. What passes -/

/-- The name ends with an item that is not empty without its '*'. -/
def Suffixed (vals : List Path) (file : Path) : Prop :=
  ∃ v ∈ vals, ∃ item ∈ v.splitOn pipe, unstar item ≠ [] ∧ unstar item <:+ file

instance (vals : List Path) (file : Path) : Decidable (Suffixed vals file) :=
  inferInstanceAs (Decidable (∃ v ∈ vals, ∃ item ∈ v.splitOn pipe, _ ∧ _))

/-- Every item behind an empty one of its value ends with one that is kept, of the same or another
    value. -/
def Covered (vals : List Path) : Prop :=
  ∀ v ∈ vals, ∀ d ∈ dropped v, ∃ u ∈ vals, ∃ k ∈ kept u, k <:+ d

instance (vals : List Path) : Decidable (Covered vals) :=
  inferInstanceAs (Decidable (∀ v ∈ vals, ∀ d ∈ dropped v, ∃ u ∈ vals, ∃ k ∈ kept u, _))

section Check

variable {vals : List Path} {file : Path}

theorem unstar_length (s : Path) : (unstar s).length ≤ s.length := by
  cases s with
  | nil => exact Nat.le_refl _
  | cons c s =>
    rw [unstar]
    split
    · exact Nat.le_succ _
    · exact Nat.le_refl _

theorem checkFileAllow_iff {w : FileFilter} (hlen : ∀ k ∈ w.allow, k.length < 64) :
    w.checkFileAllow file = true ↔ ∃ k ∈ w.allow, k <:+ file := by
  rw [FileFilter.checkFileAllow, any_eq_true]
  refine exists_congr fun k => and_congr_right fun hk => ?_
  have hlt := hlen k hk
  rw [Nat.mod_eq_of_lt (by omega), take_of_length_le (by omega), Bool.and_eq_true,
    decide_eq_true_eq, beq_iff_eq, suffix_iff_eq_drop]
  constructor
  · exact fun h => h.2.symm
  · intro h
    refine ⟨?_, h.symm⟩
    rw [h, length_drop]
    omega

theorem mem_items {v k : Path} : k ∈ items v ↔ ∃ item ∈ v.splitOn pipe, unstar item = k := by
  rw [items, mem_map]

theorem mem_kept_or_dropped {v k : Path} :
    (k ∈ items v ∧ k ≠ []) ↔ k ∈ kept v ∨ k ∈ dropped v := by
  have hsplit : items v = kept v ++ (items v).dropWhile (· != []) :=
    takeWhile_append_dropWhile.symm
  constructor
  · rintro ⟨hk, hne⟩
    rw [hsplit, mem_append] at hk
    exact hk.imp_right fun h => mem_filter.mpr ⟨h, bne_iff_ne.mpr hne⟩
  · rintro (hk | hk)
    · have hne := @mem_takeWhile_imp _ (· != []) _ k hk
      exact ⟨(takeWhile_sublist _).subset hk, bne_iff_ne.mp hne⟩
    · obtain ⟨hk, hne⟩ := mem_filter.mp hk
      exact ⟨(dropWhile_sublist _).subset hk, bne_iff_ne.mp hne⟩

theorem suffixed_iff : Suffixed vals file ↔ ∃ v ∈ vals, ∃ k, (k ∈ kept v ∨ k ∈ dropped v) ∧
    k <:+ file := by
  refine exists_congr fun v => and_congr_right fun _ => ?_
  constructor
  · rintro ⟨item, hitem, hne, hend⟩
    exact ⟨_, mem_kept_or_dropped.mp ⟨mem_items.mpr ⟨item, hitem, rfl⟩, hne⟩, hend⟩
  · rintro ⟨k, hk, hend⟩
    obtain ⟨hmem, hne⟩ := mem_kept_or_dropped.mpr hk
    obtain ⟨item, hitem, rfl⟩ := mem_items.mp hmem
    exact ⟨item, hitem, hne, hend⟩

theorem checkFileFilter_iff {s : IntStore}
    (hon : (s.getIntval (ascii "file_disable_filter") 1).1 = 0)
    (hlen : ∀ v ∈ suffixValues s.store, ∀ item ∈ v.splitOn pipe, item.length < 64) :
    (initFileFilter s).1.checkFileFilter file = true ↔
      ∃ v ∈ suffixValues s.store, ∃ k ∈ kept v, k <:+ file := by
  rw [initFileFilter_allow hon, FileFilter.checkFileFilter, Bool.false_or, checkFileAllow_iff]
  · simp only [mem_reverse, mem_flatMap]
    exact ⟨fun ⟨k, ⟨v, hv, hk⟩, hend⟩ => ⟨v, hv, k, hk, hend⟩,
      fun ⟨v, hv, k, hk, hend⟩ => ⟨k, ⟨v, hv, hk⟩, hend⟩⟩
  · intro k hk
    rw [mem_reverse, mem_flatMap] at hk
    obtain ⟨v, hv, hk⟩ := hk
    obtain ⟨item, hitem, rfl⟩ := mem_items.mp (mem_kept_or_dropped.mpr (.inl hk)).1
    exact Nat.lt_of_le_of_lt (unstar_length item) (hlen v hv item hitem)

end Check

/-- **The filter is the set of the configured suffixes** if and only if every item behind an empty
    one ends with one that is kept. -/
theorem filter_exact_iff (s : IntStore) (hon : (s.getIntval (ascii "file_disable_filter") 1).1 = 0)
    (hlen : ∀ v ∈ suffixValues s.store, ∀ item ∈ v.splitOn pipe, item.length < 64) :
    (∀ file, (initFileFilter s).1.checkFileFilter file = true ↔
      Suffixed (suffixValues s.store) file) ↔
      Covered (suffixValues s.store) := by
  constructor
  · intro hexact v hv d hd
    have hsuffixed : Suffixed (suffixValues s.store) d :=
      suffixed_iff.mpr ⟨v, hv, d, .inr hd, suffix_rfl⟩
    exact (checkFileFilter_iff hon hlen).mp ((hexact d).mpr hsuffixed)
  · intro hcov file
    rw [checkFileFilter_iff hon hlen, suffixed_iff]
    constructor
    · rintro ⟨v, hv, k, hk, hend⟩
      exact ⟨v, hv, k, .inl hk, hend⟩
    · rintro ⟨v, hv, k, hk | hk, hend⟩
      · exact ⟨v, hv, k, hk, hend⟩
      · obtain ⟨u, hu, k', hk', hend'⟩ := hcov v hv k hk
        exact ⟨u, hu, k', hk', hend'.trans hend⟩

/-- An enabled filter with the values given. -/
def filterStore (vals : List Path) : IntStore :=
  ⟨⟨(vals.reverse.map fun v => ⟨ascii "file_allow_suffix", v, some 0⟩) ++
      [⟨ascii "file_disable_filter", ascii "0", some 0⟩], [[]]⟩,
    List.replicate (vals.length + 1) (-1)⟩

/-- "*.mp4|jpg|" and "jpeg": the empty item is the last one. -/
theorem filter_exact_twoValues :
    Covered (suffixValues (filterStore [ascii "*.mp4|jpg|", ascii "jpeg"]).store) ∧
      ∀ file, (initFileFilter (filterStore [ascii "*.mp4|jpg|", ascii "jpeg"])).1.checkFileFilter
        file =
        true ↔ Suffixed (suffixValues (filterStore [ascii "*.mp4|jpg|", ascii "jpeg"]).store)
          file := by
  have hcov : Covered (suffixValues (filterStore [ascii "*.mp4|jpg|", ascii "jpeg"]).store) := by
    decide
  exact ⟨hcov, (filter_exact_iff (filterStore [ascii "*.mp4|jpg|", ascii "jpeg"]) (by decide)
    (by decide)).mpr hcov⟩

/-- **An item behind an empty one is lost**: with the value "|jpg", "a.jpg" does not pass, and
    neither does "b.mp4" with "*|mp4". -/
theorem filter_drops :
    (initFileFilter (filterStore [ascii "|jpg"])).1.checkFileFilter (ascii "a.jpg") = false ∧
      Suffixed (suffixValues (filterStore [ascii "|jpg"]).store) (ascii "a.jpg") ∧
      (initFileFilter (filterStore [ascii "*|mp4"])).1.checkFileFilter (ascii "b.mp4") = false ∧
      Suffixed (suffixValues (filterStore [ascii "*|mp4"]).store) (ascii "b.mp4") := by
  refine ⟨?_, ?_, ?_, ?_⟩
  · rw [initFileFilter_allow (by decide)]
    decide
  · decide
  · rw [initFileFilter_allow (by decide)]
    decide
  · decide

end Pfs
