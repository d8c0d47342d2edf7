/-
  Missing directories (`createdir` and its callers: `open_tmp_localfile_4_write`,
  `check_disk_space` of network/pfs_localfile.c, `init_storage_dir` of
  network/pfs_init.c) over a tree of directories.

  `Localfile` takes what the system calls return from outside. Here they are made on a tree, so
  that it can be asked what is there afterwards.

  Main results: `createdir_creates`, `createdir_not_last`, `reopen_fails`, `diskSpace_fails`,
  `initStorageDir_dirs`.
-/
import Mathlib.Data.List.Nodup
import Mathlib.Data.List.ProdSigma
import Pfs.Lib.DirTree
import Pfs.StoredName

namespace Pfs

open Lib Function List

abbrev Fs := DirTree Path (List UInt8)

/-! ## 1. Names -/

def compOf (s : Path) : Comp Path :=
  if s = [dot] then .here else if s = [dot, dot] then .up else .name s

/-- The components; `cur` is what has been read of the first one. -/
def compsFrom : Path → Path → List (Comp Path)
  | cur, [] => if cur = [] then [] else [compOf cur]
  | cur, c :: s =>
    if c = slash then
      if cur = [] then compsFrom [] s else compOf cur :: compsFrom [] s
    else compsFrom (cur ++ [c]) s

/-- A separator at the end asks for a directory. -/
def comps (p : Path) : List (Comp Path) :=
  compsFrom [] p ++ if p.getLast? = some slash then [.here] else []

theorem compsFrom_append (cur d s : Path) :
    compsFrom cur (d ++ slash :: s) = compsFrom cur d ++ compsFrom [] s := by
  induction d generalizing cur with
  | nil =>
    by_cases hc : cur = []
    · simp [compsFrom, hc]
    · simp [compsFrom, hc]
  | cons c d ih =>
    simp only [cons_append, compsFrom]
    split
    · split
      · exact ih []
      · rw [ih, cons_append]
    · exact ih _

theorem compsFrom_plain {cur s : Path} (h : slash ∉ s) :
    compsFrom cur s = if cur ++ s = [] then [] else [compOf (cur ++ s)] := by
  induction s generalizing cur with
  | nil => simp [compsFrom]
  | cons c s ih =>
    have hc : c ≠ slash := fun he => h (he ▸ mem_cons_self)
    rw [compsFrom, if_neg hc, ih fun hm => h (mem_cons_of_mem _ hm)]
    simp

theorem compsFrom_eq_nil {cur s : Path} (h : compsFrom cur s = []) :
    cur = [] ∧ ∀ c ∈ s, c = slash := by
  induction s generalizing cur with
  | nil =>
    rw [compsFrom] at h
    split at h
    · rename_i hc
      exact ⟨hc, nofun⟩
    · cases h
  | cons c s ih =>
    rw [compsFrom] at h
    split at h
    · rename_i hc
      split at h
      · rename_i hcur
        exact ⟨hcur, fun x hx => (mem_cons.mp hx).elim (·.trans hc) ((ih h).2 x)⟩
      · cases h
    · simpa using (ih h).1

theorem comps_ne_nil {p : Path} (hp : p ≠ []) : comps p ≠ [] := by
  intro h
  obtain ⟨hs, hlast⟩ := append_eq_nil_iff.mp h
  have hslash : p.getLast? = some slash := by
    rw [getLast?_eq_some_getLast hp, (compsFrom_eq_nil hs).2 _ (getLast_mem hp)]
  simp [hslash] at hlast

theorem comps_append (d s : Path) :
    comps (d ++ slash :: s) = compsFrom [] d ++ comps (slash :: s) := by
  have hfirst : compsFrom [] (slash :: s) = compsFrom [] s := by simp [compsFrom]
  rw [comps, comps, compsFrom_append, hfirst, append_assoc,
    getLast?_append_of_ne_nil _ (cons_ne_nil _ _)]

/-! ## 2. Calls -/

section Calls

variable (cwd : List Path) (refuse : Path → Bool)

def startOf (p : Path) : List Path := if p.head? = some slash then [] else cwd

/-- The place of a name, whether something is there or not. -/
def placeOf (p : Path) : List Path := place (startOf cwd p) (compsFrom [] p)

def resolve (t : Fs) (p : Path) : Except Errno (List Path) :=
  if p = [] then .error .noent else t.walk (startOf cwd p) (comps p)

/-- `access(p, F_OK) == 0` -/
def access (t : Fs) (p : Path) : Bool :=
  match resolve cwd t p with
  | .ok _ => true
  | .error _ => false

/-- `p` names a directory. -/
def IsDir (t : Fs) (p : Path) : Prop :=
  resolve cwd t p = .ok (placeOf cwd p) ∧ t.node (placeOf cwd p) = some .dir

instance (t : Fs) (p : Path) : Decidable (IsDir cwd t p) :=
  have : Decidable (resolve cwd t p = .ok (placeOf cwd p)) :=
    match resolve cwd t p with
    | .ok q => decidable_of_iff (q = placeOf cwd p) (by simp)
    | .error _ => isFalse nofun
  inferInstanceAs (Decidable (_ ∧ _))

/-- A regular file stands where `p` leads to. -/
def FileAt (t : Fs) (p : Path) : Prop := ∃ a, t.node (placeOf cwd p) = some (.file a)

instance (t : Fs) (p : Path) : Decidable (FileAt cwd t p) :=
  match h : t.node (placeOf cwd p) with
  | none => isFalse fun ⟨a, ha⟩ => by rw [h] at ha; cases ha
  | some .dir => isFalse fun ⟨a, ha⟩ => by rw [h] at ha; cases ha
  | some (.file a) => isTrue ⟨a, h⟩

/-- `mkdir`, which may be refused. -/
def mkdirAt (t : Fs) (p : Path) : Except Errno Fs :=
  if p = [] then .error .noent
  else
    match t.mkdir (startOf cwd p) (compsFrom [] p) with
    | .error e => .error e
    | .ok t' => if refuse p then .error .other else .ok t'

/-- `open` of a temporary file with O_CREAT. -/
def openCreat (t : Fs) (p : Path) : Except Errno Fs :=
  if p = [] then .error .noent
  else
    match t.create (startOf cwd p) (compsFrom [] p) [] with
    | .error e => .error e
    | .ok t' => if refuse p then .error .other else .ok t'

/-- The loop of `createdir`, with the part before the current byte and the rest: the result, the
    text on return, and the tree. The first byte is never looked at. -/
def createLoop : Path → Path → Fs → Int × Path × Fs
  | before, [], t => (0, before, t)
  | before, c :: s, t =>
    if c = slash ∧ before ≠ [] then
      if access cwd t before then createLoop (before ++ [c]) s t
      else
        match mkdirAt cwd refuse t before with
        -- the separator has not been put back yet
        | .error _ => (-1, before, t)
        | .ok t' => createLoop (before ++ [c]) s t'
    else createLoop (before ++ [c]) s t

/-- `createdir` -/
def createdirIn (t : Fs) (file : Path) : Int × Path × Fs := createLoop cwd refuse [] file t

/-- `open_tmp_localfile_4_write` once the temporary name stands in the record: the result, the
    error of the last `open`, the record's file name and the tree. -/
def openTmpIn (t : Fs) (filename tmpfile : Path) : LocalRet × Option Errno × Path × Fs :=
  match openCreat cwd refuse t tmpfile with
  | .ok t' => (.ok, none, filename, t')
  | .error .noent =>
    let dir := ((splitLast filename).map Prod.fst).getD []
    let made := if access cwd t dir then (0, dir, t) else createdirIn cwd refuse t dir
    if made.1 ≠ 0 then (.dirE, some .noent, made.2.1, made.2.2)
    else
      match openCreat cwd refuse made.2.2 tmpfile with
      | .ok t' => (.ok, none, filename, t')
      | .error e => (.openE, some e, filename, made.2.2)
  | .error e => (.ok, some e, filename, t)

/-- `check_disk_space`; `free` is whether enough space is left where the directory is. -/
def checkDiskSpaceIn (free : Bool) (t : Fs) (filename : Path) : DiskRet × Fs :=
  match splitLast filename with
  | none => (.err, t)
  | some (path, _) =>
    let made := if access cwd t path then (0, path, t) else createdirIn cwd refuse t path
    if made.1 ≠ 0 then (.err, made.2.2)
    else if access cwd made.2.2 path = false then (.err, made.2.2)
    else (if free then .ok else .spaceTooSmall, made.2.2)

end Calls

/-! ## 3. What a name leads to -/

section Names

variable {cwd : List Path} {t t' : Fs} {d p : Path}

theorem startOf_append (hd : d ≠ []) (s : Path) : startOf cwd (d ++ s) = startOf cwd d := by
  cases d with
  | nil => exact absurd rfl hd
  | cons c d => rfl

theorem place_comps (cur : List Path) (p : Path) :
    place cur (comps p) = place cur (compsFrom [] p) := by
  unfold comps place
  split <;> simp [Comp.step]

theorem resolve_place {q : List Path} (h : resolve cwd t p = .ok q) : q = placeOf cwd p := by
  unfold resolve at h
  split at h
  · cases h
  · rw [DirTree.walk_eq_place h, place_comps]
    rfl

theorem access_iff : access cwd t p = true ↔ resolve cwd t p = .ok (placeOf cwd p) := by
  unfold access
  constructor
  · intro h
    split at h
    · rename_i q hq
      rw [hq, resolve_place hq]
    · cases h
  · intro h
    rw [h]

theorem IsDir.access (h : IsDir cwd t p) : access cwd t p = true := access_iff.mpr h.1

theorem isDir_of_walk (hd : d ≠ [])
    (hw : t.walk (startOf cwd d) (compsFrom [] d) = .ok (placeOf cwd d))
    (hdir : t.node (placeOf cwd d) = some .dir) : IsDir cwd t d := by
  refine ⟨?_, hdir⟩
  rw [resolve, if_neg hd, comps]
  split
  · exact DirTree.walk_concat hw hdir .here (by rw [Comp.step, hdir]; intro h; cases h)
  · rw [append_nil, hw]

/-- Whatever is in front of a separator is a directory, if the whole name leads anywhere. -/
theorem isDir_of_access {s : Path} (hd : d ≠ []) (h : access cwd t (d ++ slash :: s) = true) :
    IsDir cwd t d := by
  have hr := access_iff.mp h
  rw [resolve, if_neg (by simp), startOf_append hd, comps_append] at hr
  obtain ⟨hw, hdir, -⟩ := DirTree.walk_append_dir (comps_ne_nil (cons_ne_nil _ _)) hr
  exact isDir_of_walk hd hw hdir

theorem walk_of_access (h : access cwd t d = true) :
    t.walk (startOf cwd d) (compsFrom [] d) = .ok (placeOf cwd d) := by
  have hr := access_iff.mp h
  unfold resolve at hr
  split at hr
  · cases hr
  rw [comps] at hr
  split at hr
  · exact (DirTree.walk_append_dir (by simp) hr).1
  · rwa [append_nil] at hr

theorem IsDir.walk (h : IsDir cwd t d) :
    t.walk (startOf cwd d) (compsFrom [] d) = .ok (placeOf cwd d) := walk_of_access h.access

theorem IsDir.ne_nil (h : IsDir cwd t d) : d ≠ [] := by
  rintro rfl
  exact absurd h.1 (by simp [resolve])

theorem IsDir.append_slash (h : IsDir cwd t d) : IsDir cwd t (d ++ [slash]) := by
  have hcomps : compsFrom [] (d ++ [slash]) = compsFrom [] d := by
    rw [compsFrom_append]
    simp [compsFrom]
  have hplace : placeOf cwd (d ++ [slash]) = placeOf cwd d := by
    rw [placeOf, startOf_append h.ne_nil, hcomps]
    rfl
  apply isDir_of_walk (by simp)
  · rw [hplace, startOf_append h.ne_nil, hcomps, h.walk]
  · rw [hplace, h.2]

theorem access_mono (hg : t.Grows t') (h : access cwd t p = true) : access cwd t' p = true := by
  rw [access_iff] at h ⊢
  unfold resolve at h ⊢
  split at h
  · cases h
  rename_i hp
  rw [if_neg hp]
  exact hg.walk h

theorem IsDir.mono (hg : t.Grows t') (h : IsDir cwd t p) : IsDir cwd t' p :=
  ⟨access_iff.mp (access_mono hg h.access), hg.keeps h.2⟩

theorem node_of_access (h : access cwd t p = true) : t.node (placeOf cwd p) ≠ none := by
  have hw := access_iff.mp h
  unfold resolve at hw
  split at hw
  · cases hw
  rename_i hp
  obtain ⟨-, hstart, -⟩ :=
    @DirTree.walk_append_dir _ _ t (startOf cwd p) _ [] _ (comps_ne_nil hp) hw
  exact DirTree.walk_node (by rw [show t.node (startOf cwd p) = _ from hstart]; nofun) hw

theorem isDir_or_fileAt (h : access cwd t p = true) : IsDir cwd t p ∨ FileAt cwd t p := by
  cases hx : t.node (placeOf cwd p) with
  | none => exact absurd hx (node_of_access h)
  | some x =>
    cases x with
    | dir => exact .inl ⟨access_iff.mp h, hx⟩
    | file a => exact .inr ⟨a, hx⟩

end Names

/-! ## 4. The loop -/

section Loop

variable {cwd : List Path} {refuse : Path → Bool} {t t' : Fs}

theorem mkdirAt_grows {p : Path} (h : mkdirAt cwd refuse t p = .ok t') :
    t.Grows t' ∧ IsDir cwd t' p ∧ ∀ q, q ≠ placeOf cwd p → t'.node q = t.node q := by
  unfold mkdirAt at h
  split at h
  · cases h
  rename_i hp
  split at h
  · cases h
  rename_i t1 hm
  split at h
  · cases h
  cases h
  obtain ⟨hg, hw, hdir, hrest⟩ := DirTree.mkdir_grows hm
  exact ⟨hg, isDir_of_walk hp hw hdir, hrest⟩

variable {p q : Path} {c : UInt8}

theorem dirPrefixes_concat (before s : Path) (c : UInt8) :
    dirPrefixes before (s ++ [c]) =
      dirPrefixes before s ++ if c = slash ∧ before ++ s ≠ [] then [before ++ s] else [] := by
  induction s generalizing before with
  | nil => simp [dirPrefixes]
  | cons d s ih => simp [dirPrefixes, ih]

theorem mem_front_concat :
    q ∈ dirPrefixes [] (p ++ [c]) ↔ q ∈ dirPrefixes [] p ∨ (c = slash ∧ p ≠ []) ∧ q = p := by
  rw [dirPrefixes_concat, mem_append, nil_append]
  split <;> simp [*]

/-- The parts of a name that `createdir` looks at: all in front of a separator. -/
theorem mem_front : q ∈ dirPrefixes [] p ↔ q ≠ [] ∧ q ++ [slash] <+: p := by
  induction p using List.reverseRecOn with
  | nil => simp [dirPrefixes]
  | append_singleton p c ih =>
    rw [mem_front_concat, ih, prefix_concat_iff, and_or_left, or_comm]
    refine or_congr_left ⟨?_, ?_⟩
    · rintro ⟨⟨rfl, hp⟩, rfl⟩
      exact ⟨hp, rfl⟩
    · rintro ⟨hq, he⟩
      obtain ⟨rfl, hc⟩ := append_inj' he rfl
      exact ⟨⟨(head_eq_of_cons_eq hc).symm, hq⟩, rfl⟩

/-- One byte more: the loop goes on where it was, unless it has given up. -/
theorem createLoop_concat (before s : Path) (c : UInt8) (t : Fs) :
    createLoop cwd refuse before (s ++ [c]) t =
      if (createLoop cwd refuse before s t).1 = 0 then
        createLoop cwd refuse (before ++ s) [c] (createLoop cwd refuse before s t).2.2
      else createLoop cwd refuse before s t := by
  induction s generalizing before t with
  | nil => simp [createLoop]
  | cons d s ih =>
    rw [cons_append, createLoop, createLoop, append_cons before d s]
    split
    · split
      · exact ih _ _
      split
      · rfl
      · exact ih _ _
    · exact ih _ _

/-- What `createdir` does to the tree: nothing but directories at the places it looks at is added;
    on success they are all there and the text is whole, and on failure the text is cut. -/
structure Makes (cwd : List Path) (t : Fs) (path : Path) (r : Int × Path × Fs) : Prop where
  grows : t.Grows r.2.2
  frame : ∀ q, (∀ d ∈ dirPrefixes [] path, q ≠ placeOf cwd d) → r.2.2.node q = t.node q
  whole : r.1 = 0 → r.2.1 = path
  there : r.1 = 0 → ∀ d ∈ dirPrefixes [] path, access cwd r.2.2 d = true
  cut : r.1 ≠ 0 → r.2.1 ++ [slash] <+: path

theorem Makes.goOn {r : Int × Path × Fs} (h : Makes cwd t p r) (h0 : r.1 = 0) (hg : r.2.2.Grows t')
    (hrest : ∀ q, (c = slash ∧ p ≠ [] → q ≠ placeOf cwd p) → t'.node q = r.2.2.node q)
    (hacc : c = slash ∧ p ≠ [] → access cwd t' p = true) :
    Makes cwd t (p ++ [c]) (0, p ++ [c], t') where
  grows := h.grows.trans hg
  frame q hq := (hrest q fun hc => hq p (mem_front_concat.mpr (.inr ⟨hc, rfl⟩))).trans
    (h.frame q fun d hd => hq d (mem_front_concat.mpr (.inl hd)))
  whole _ := rfl
  there _ d hd := by
    obtain hd | ⟨hc, rfl⟩ := mem_front_concat.mp hd
    · exact access_mono hg (h.there h0 d hd)
    · exact hacc hc
  cut hne := absurd rfl hne

theorem Makes.giveUp {r : Int × Path × Fs} {n : Int} (h : Makes cwd t p r) (hn : n ≠ 0)
    (hcut : q ++ [slash] <+: p ++ [c]) : Makes cwd t (p ++ [c]) (n, q, r.2.2) where
  grows := h.grows
  frame q hq := h.frame q fun d hd => hq d (mem_front_concat.mpr (.inl hd))
  whole h0 := absurd h0 hn
  there h0 := absurd h0 hn
  cut _ := hcut

theorem createdirIn_makes (path : Path) : Makes cwd t path (createdirIn cwd refuse t path) := by
  induction path using List.reverseRecOn with
  | nil => exact ⟨.refl t, fun _ _ => rfl, fun _ => rfl, fun _ => nofun, fun h => absurd rfl h⟩
  | append_singleton path c ih =>
    rw [createdirIn, createLoop_concat]
    split
    · rename_i h0
      rw [createLoop]
      by_cases hc : c = slash ∧ path ≠ []
      · rw [nil_append, if_pos hc]
        split
        · exact ih.goOn h0 (.refl _) (fun _ _ => rfl) fun _ => ‹_›
        cases hm : mkdirAt cwd refuse (createLoop cwd refuse [] path t).2.2 path with
        | error e => exact ih.giveUp (by decide) (hc.1 ▸ prefix_rfl)
        | ok t' =>
          obtain ⟨hg, hdir, hrest⟩ := mkdirAt_grows hm
          exact ih.goOn h0 hg (fun q hq => hrest q (hq hc)) fun _ => hdir.access
      · rw [nil_append, if_neg hc]
        exact ih.goOn h0 (.refl _) (fun _ _ => rfl) fun h => absurd h hc
    · rename_i hne
      exact ih.giveUp hne ((ih.cut hne).trans (prefix_append _ _))

section Visit

variable (hstart : t.node (startOf cwd p) = some .dir)
  (hfront : ∀ d ∈ dirPrefixes [] p, IsDir cwd t d)

include hstart hfront

/-- The last component of a name, and the directory in which it is looked for. -/
theorem last_comp (hp : p ≠ []) : IsDir cwd t p ∨ ∃ xs q c, compsFrom [] p = xs ++ [c] ∧
    t.walk (startOf cwd p) xs = .ok q ∧ t.node q = some .dir ∧ p.getLast? ≠ some slash ∧
    placeOf cwd p = c.step q := by
  suffices h : ∃ xs name q, compsFrom [] p = xs ++ compsFrom [] name ∧ slash ∉ name ∧
      t.walk (startOf cwd p) xs = .ok q ∧ t.node q = some .dir ∧
      (p.getLast? = some slash → name = []) by
    obtain ⟨xs, name, q, hcomps, hn, hw, hdir, hend⟩ := h
    rw [compsFrom_plain hn, nil_append] at hcomps
    split at hcomps
    · rw [append_nil] at hcomps
      have hplace : placeOf cwd p = q := by rw [placeOf, hcomps, ← DirTree.walk_eq_place hw]
      exact .inl (isDir_of_walk hp (by rw [hcomps, hw, hplace]) (by rw [hplace, hdir]))
    rename_i hne
    refine .inr ⟨xs, q, _, hcomps, hw, hdir, fun h => hne (hend h), ?_⟩
    rw [placeOf, hcomps, place, foldl_append, DirTree.walk_eq_place hw]
    rfl
  cases hs : splitLast p with
  | none =>
    have hn := splitLast_eq_none.mp hs
    exact ⟨[], p, _, rfl, hn, rfl, hstart, fun h => absurd (mem_of_getLast? h) hn⟩
  | some r =>
    obtain ⟨x, name⟩ := r
    obtain ⟨rfl, hn⟩ := splitLast_eq_some hs
    have hend : (x ++ slash :: name).getLast? = some slash → name = [] := by
      intro h
      by_contra hne
      rw [getLast?_append_of_ne_nil _ (cons_ne_nil _ _), getLast?_cons_of_ne_nil hne] at h
      exact hn (mem_of_getLast? h)
    by_cases hx : x = []
    · subst hx
      exact ⟨[], name, _, rfl, hn, rfl, hstart, hend⟩
    · have hd := hfront x (mem_front.mpr ⟨hx, name, by simp⟩)
      exact ⟨_, name, _, compsFrom_append [] x name, hn, startOf_append hx _ ▸ hd.walk, hd.2, hend⟩

theorem access_of_node (hp : p ≠ []) (hnode : t.node (placeOf cwd p) ≠ none) :
    access cwd t p = true := by
  obtain hdir | ⟨xs, q, c, hcomps, hw, hdir, hlast, hplace⟩ := last_comp hstart hfront hp
  · exact hdir.access
  · rw [access_iff, resolve, if_neg hp, comps, if_neg hlast, append_nil, hcomps, hplace]
    exact DirTree.walk_concat hw hdir c (hplace ▸ hnode)

/-- Where nothing stands, the last component is a name, and only the name is missing. -/
theorem name_of_none (hp : p ≠ []) (hnode : t.node (placeOf cwd p) = none) :
    ∃ xs q c, compsFrom [] p = xs ++ [.name c] ∧ t.walk (startOf cwd p) xs = .ok q ∧
      t.node q = some .dir ∧ t.node (q ++ [c]) = none := by
  obtain hdir | ⟨xs, q, c, hcomps, hw, hdir, -, hplace⟩ := last_comp hstart hfront hp
  · cases hnode.symm.trans hdir.2
  rw [hplace] at hnode
  cases c with
  | here => cases hnode.symm.trans hdir
  | up => cases hnode.symm.trans (DirTree.node_dropLast hdir)
  | name c => exact ⟨xs, q, c, hcomps, hw, hdir, hnode⟩

theorem mkdirAt_of_none (hp : p ≠ []) (hnode : t.node (placeOf cwd p) = none) :
    ∃ t', mkdirAt cwd refuse t p = if refuse p then .error .other else .ok t' := by
  obtain ⟨xs, q, c, hcomps, hw, hdir, hnone⟩ := name_of_none hstart hfront hp hnode
  obtain ⟨t', ht'⟩ := DirTree.mkdir_concat hw hdir hnone
  exact ⟨t', by simp [mkdirAt, hp, hcomps, ht']⟩

end Visit

end Loop

/-! ## 5. What is there afterwards -/

/-- The loop goes on behind the part `d`: no regular file stands in front of it, and its `mkdir` is
    not refused if it has to be made: where nothing stood, and no part in front leads to. -/
def Passes (cwd : List Path) (refuse : Path → Bool) (t : Fs) (d : Path) : Prop :=
  (∀ d' ∈ dirPrefixes [] d, ¬ FileAt cwd t d') ∧
    (t.node (placeOf cwd d) = none → (∀ d' ∈ dirPrefixes [] d, placeOf cwd d' ≠ placeOf cwd d) →
      refuse d = false)

/-- The loop comes to the end of `path`. -/
def Clear (cwd : List Path) (refuse : Path → Bool) (t : Fs) (path : Path) : Prop :=
  ∀ d ∈ dirPrefixes [] path, Passes cwd refuse t d

/-- `d` is `path` or the part of it in front of one of its separators. -/
def Names (path d : Path) : Prop := d ≠ [] ∧ (d = path ∨ d ++ [slash] <+: path)

/-- The condition on `path`: no regular file stands in front of a separator, and `path` leads to a
    directory already or to where one of these parts leads. -/
def CompletesPath (cwd : List Path) (t : Fs) (path : Path) : Prop :=
  (∀ d ∈ dirPrefixes [] path, ¬ FileAt cwd t d) ∧
    (t.node (placeOf cwd path) = some .dir ∨
      ∃ d ∈ dirPrefixes [] path, placeOf cwd d = placeOf cwd path)

instance (cwd : List Path) (t : Fs) (path : Path) : Decidable (CompletesPath cwd t path) :=
  inferInstanceAs (Decidable (_ ∧ _))

section After

variable {cwd : List Path} {refuse : Path → Bool} {t : Fs} {path : Path}

theorem placeOf_append_slash {q : Path} (hq : q ≠ []) :
    placeOf cwd (q ++ [slash]) = placeOf cwd q := by
  rw [placeOf, startOf_append hq, compsFrom_append]
  simp [compsFrom, placeOf]

theorem node_startOf (hcwd : t.node cwd = some .dir) (p : Path) :
    t.node (startOf cwd p) = some .dir := by
  unfold startOf
  split
  · exact t.root
  · exact hcwd

theorem createdirIn_front (h0 : (createdirIn cwd refuse t path).1 = 0) {d : Path}
    (hd : d ∈ dirPrefixes [] path) :
    IsDir cwd (createdirIn cwd refuse t path).2.2 d ↔ ¬ FileAt cwd t d := by
  have hmakes := @createdirIn_makes cwd refuse t path
  constructor
  · rintro hdir ⟨a, ha⟩
    cases hdir.2.symm.trans (hmakes.grows.keeps ha)
  · intro hfile
    refine (isDir_or_fileAt (hmakes.there h0 d hd)).resolve_right ?_
    rintro ⟨a, ha⟩
    exact hfile ⟨a, hmakes.grows.of_file ha⟩

/-- Behind a regular file nothing is found and nothing is made. -/
theorem behind_file {d : Path} (hd : d ∈ dirPrefixes [] path) (hfile : FileAt cwd t d) :
    access cwd t path = false ∧ ∃ e, mkdirAt cwd refuse t path = .error e := by
  obtain ⟨hne, s, rfl⟩ := mem_front.mp hd
  obtain ⟨a, ha⟩ := hfile
  have hno (t' : Fs) (hg : t.Grows t') : access cwd t' (d ++ [slash] ++ s) = false := by
    by_contra hacc
    rw [append_assoc, Bool.not_eq_false] at hacc
    cases (isDir_of_access hne hacc).2.symm.trans (hg.keeps ha)
  refine ⟨hno t (.refl t), ?_⟩
  cases hm : mkdirAt cwd refuse t (d ++ [slash] ++ s) with
  | error e => exact ⟨e, rfl⟩
  | ok t' =>
    obtain ⟨hg, hdir, -⟩ := mkdirAt_grows hm
    cases hdir.access.symm.trans (hno t' hg)

/-- The loop at the end of a part that it looks at. -/
theorem createLoop_slash (hcwd : t.node cwd = some .dir) (hpath : path ≠ [])
    (h0 : (createdirIn cwd refuse t path).1 = 0) :
    (createLoop cwd refuse path [slash] (createdirIn cwd refuse t path).2.2).1 = 0 ↔
      Passes cwd refuse t path := by
  have hmakes := @createdirIn_makes cwd refuse t path
  have hstart := hmakes.grows.keeps (node_startOf hcwd path)
  rw [createLoop, if_pos ⟨rfl, hpath⟩]
  by_cases hfile : ∃ d ∈ dirPrefixes [] path, FileAt cwd t d
  · obtain ⟨d, hd, hfile⟩ := hfile
    obtain ⟨hacc, e, he⟩ := @behind_file cwd refuse _ path d hd
      (hfile.imp fun _ ha => hmakes.grows.keeps ha)
    rw [hacc, if_neg Bool.false_ne_true, he]
    exact iff_of_false (by simp) fun h => h.1 d hd hfile
  have hno := fun d hd h => hfile ⟨d, hd, h⟩
  have hdirs := fun d hd => (createdirIn_front h0 hd).mpr (hno d hd)
  by_cases hnode : (createdirIn cwd refuse t path).2.2.node (placeOf cwd path) = none
  · obtain ⟨t', ht'⟩ := @mkdirAt_of_none cwd refuse _ path hstart hdirs hpath hnode
    have hold : t.node (placeOf cwd path) = none := by
      by_contra hne
      obtain ⟨x, hx⟩ := Option.ne_none_iff_exists'.mp hne
      cases (hmakes.grows.keeps hx).symm.trans hnode
    have hneed : Passes cwd refuse t path ↔ refuse path = false := by
      refine ⟨fun h => h.2 hold fun d hd he => ?_, fun h => ⟨hno, fun _ _ => h⟩⟩
      cases hnode.symm.trans (he ▸ (hdirs d hd).2)
    rw [if_neg fun hacc => node_of_access hacc hnode, ht', hneed]
    cases refuse path <;> simp [createLoop]
  · rw [if_pos (access_of_node hstart hdirs hpath hnode)]
    refine iff_of_true rfl ⟨hno, fun hold hnew => absurd ?_ hnode⟩
    rw [hmakes.frame _ fun d hd => (hnew d hd).symm, hold]

theorem clear_concat {c : UInt8} : Clear cwd refuse t (path ++ [c]) ↔
    Clear cwd refuse t path ∧ (c = slash ∧ path ≠ [] → Passes cwd refuse t path) := by
  constructor
  · exact fun h => ⟨fun d hd => h d (mem_front_concat.mpr (.inl hd)),
      fun hc => h path (mem_front_concat.mpr (.inr ⟨hc, rfl⟩))⟩
  · rintro ⟨h, hpath⟩ d hd
    obtain hd | ⟨hc, rfl⟩ := mem_front_concat.mp hd
    · exact h d hd
    · exact hpath hc

theorem createdirIn_eq_zero (hcwd : t.node cwd = some .dir) :
    (createdirIn cwd refuse t path).1 = 0 ↔ Clear cwd refuse t path := by
  induction path using List.reverseRecOn with
  | nil => exact ⟨fun _ => nofun, fun _ => rfl⟩
  | append_singleton path c ih =>
    rw [clear_concat, ← ih, createdirIn, createLoop_concat, nil_append]
    split
    · rename_i h0
      by_cases hc : c = slash ∧ path ≠ []
      · rw [hc.1]
        exact (createLoop_slash hcwd hc.2 h0).trans
          ⟨fun h => ⟨h0, fun _ => h⟩, fun h => h.2 ⟨rfl, hc.2⟩⟩
      · rw [createLoop, if_neg hc]
        exact iff_of_true rfl ⟨h0, fun h => absurd h hc⟩
    · rename_i hne
      exact iff_of_false hne fun h => hne h.1

/-- The text is given back as it was exactly on success. -/
theorem createdirIn_text :
    (createdirIn cwd refuse t path).2.1 = path ↔ (createdirIn cwd refuse t path).1 = 0 := by
  have hmakes := @createdirIn_makes cwd refuse t path
  refine ⟨fun he => ?_, hmakes.whole⟩
  by_contra h0
  have hlen := (hmakes.cut h0).length_le
  rw [he, length_append] at hlen
  exact absurd hlen (Nat.not_succ_le_self _)

theorem createdirIn_last (hcwd : t.node cwd = some .dir) (hpath : path ≠ [])
    (h0 : (createdirIn cwd refuse t path).1 = 0)
    (hfront : ∀ d ∈ dirPrefixes [] path, ¬ FileAt cwd t d) :
    IsDir cwd (createdirIn cwd refuse t path).2.2 path ↔ CompletesPath cwd t path := by
  have hmakes := @createdirIn_makes cwd refuse t path
  have hdirs := fun d hd => (createdirIn_front h0 hd).mpr (hfront d hd)
  constructor
  · intro hdir
    refine ⟨hfront, ?_⟩
    by_contra hnot
    obtain ⟨hnode, hnone⟩ := not_or.mp hnot
    refine hnode ?_
    rw [← hmakes.frame _ fun d hd he => hnone ⟨d, hd, he.symm⟩]
    exact hdir.2
  · rintro ⟨-, hplace⟩
    have hnode : (createdirIn cwd refuse t path).2.2.node (placeOf cwd path) = some .dir := by
      obtain hdir | ⟨d, hd, he⟩ := hplace
      · exact hmakes.grows.keeps hdir
      · rw [← he]
        exact (hdirs d hd).2
    have hstart := hmakes.grows.keeps (node_startOf hcwd path)
    exact ⟨access_iff.mp (access_of_node hstart hdirs hpath fun h => by cases hnode.symm.trans h),
      hnode⟩

theorem createdirIn_names (hcwd : t.node cwd = some .dir) (hpath : path ≠ [])
    (h0 : (createdirIn cwd refuse t path).1 = 0) :
    (∀ d, Names path d → IsDir cwd (createdirIn cwd refuse t path).2.2 d) ↔
      CompletesPath cwd t path := by
  constructor
  · intro hall
    refine (createdirIn_last hcwd hpath h0 fun d hd => ?_).mp (hall path ⟨hpath, .inl rfl⟩)
    obtain ⟨hne, hpre⟩ := mem_front.mp hd
    exact (createdirIn_front h0 hd).mp (hall d ⟨hne, .inr hpre⟩)
  · rintro hcompl d ⟨hne, rfl | hpre⟩
    · exact (createdirIn_last hcwd hpath h0 hcompl.1).mpr hcompl
    · have hd := mem_front.mpr ⟨hne, hpre⟩
      exact (createdirIn_front h0 hd).mpr (hcompl.1 d hd)

theorem createdirIn_slash {q : Path} (hq : q ≠ [])
    (h0 : (createdirIn cwd refuse t (q ++ [slash])).1 = 0) (hfile : ¬ FileAt cwd t (q ++ [slash])) :
    IsDir cwd (createdirIn cwd refuse t (q ++ [slash])).2.2 (q ++ [slash]) := by
  have hplace := @placeOf_append_slash cwd q hq
  have hmem : q ∈ dirPrefixes [] (q ++ [slash]) := mem_front_concat.mpr (.inr ⟨⟨rfl, hq⟩, rfl⟩)
  have hdir := (createdirIn_front h0 hmem).mpr (by rwa [FileAt, ← hplace])
  exact hdir.append_slash

theorem compsFrom_long {dir n : Path} (hn : slash ∉ n) (hlen : 2 < n.length) :
    compsFrom [] (dir ++ slash :: n) = compsFrom [] dir ++ [.name n] := by
  have hne : n ≠ [] := fun h => by simp [h] at hlen
  have hcomp : compOf n = .name n := by
    rw [compOf, if_neg fun h => by simp [h] at hlen, if_neg fun h => by simp [h] at hlen]
  rw [compsFrom_append, compsFrom_plain hn, nil_append, if_neg hne, hcomp]

theorem openCreat_ne_noent {dir n : Path} (hacc : access cwd t dir = true) (hn : slash ∉ n)
    (hlen : 2 < n.length) : openCreat cwd refuse t (dir ++ slash :: n) ≠ .error .noent := by
  have hd : dir ≠ [] := by
    rintro rfl
    cases hacc
  have hloc : t.locate (startOf cwd dir) (compsFrom [] dir ++ [.name n]) =
      if t.node (placeOf cwd dir) = some .dir then
        .ok (placeOf cwd dir, n) else .error .notdir := by
    simp [DirTree.locate, walk_of_access hacc]
  rw [openCreat, if_neg (by simp), startOf_append hd, compsFrom_long hn hlen, DirTree.create, hloc]
  by_cases hdir : t.node (placeOf cwd dir) = some .dir
  · rw [if_pos hdir]
    simp only
    intro h
    split_ifs at h <;> cases h
  · rw [if_neg hdir]
    intro h
    cases h

theorem openCreat_of_none {dir n : Path} (hd : dir ≠ [])
    (hstart : t.node (startOf cwd dir) = some .dir)
    (hfront : ∀ d ∈ dirPrefixes [] dir, IsDir cwd t d) (hnone : t.node (placeOf cwd dir) = none)
    (hn : slash ∉ n) (hlen : 2 < n.length) :
    openCreat cwd refuse t (dir ++ slash :: n) = .error .noent := by
  obtain ⟨xs, q, c, hcomps, hw, hdir, hmiss⟩ := name_of_none hstart hfront hd hnone
  have hloc : t.locate (startOf cwd dir) (compsFrom [] dir ++ [.name n]) = .error .noent := by
    simp [DirTree.locate, hcomps, DirTree.walk_append, hw, Except.bind, DirTree.walk, hdir,
      Comp.step, hmiss]
  rw [openCreat, if_neg (by simp), startOf_append hd, compsFrom_long hn hlen, DirTree.create, hloc]

def tmpSuffix (e : FsEnv) (gIndex : Nat) : Path := dot :: getTmpstr e gIndex ++ pfsSuffix

theorem tmpSuffix_plain (e : FsEnv) (gIndex : Nat) :
    slash ∉ tmpSuffix e gIndex ∧ 2 < (tmpSuffix e gIndex).length := by
  refine ⟨notMem_tmpname e gIndex, ?_⟩
  have hlen : pfsSuffix.length = 4 := rfl
  rw [tmpSuffix, length_append, length_cons, hlen]
  omega

/-- The second `open`, when `createdir` has returned 0 and no regular file is in the way. -/
theorem reopen_iff {n : Path} (hcwd : t.node cwd = some .dir) (hpath : path ≠ [])
    (h0 : (createdirIn cwd refuse t path).1 = 0) (hfile : ∀ d, Names path d → ¬ FileAt cwd t d)
    (hn : slash ∉ n) (hlen : 2 < n.length) :
    openCreat cwd refuse (createdirIn cwd refuse t path).2.2 (path ++ slash :: n) ≠ .error .noent ↔
      CompletesPath cwd t path := by
  have hmakes := @createdirIn_makes cwd refuse t path
  have hfront : ∀ d ∈ dirPrefixes [] path, ¬ FileAt cwd t d := fun d hd =>
    hfile d ⟨(mem_front.mp hd).1, .inr (mem_front.mp hd).2⟩
  constructor
  · intro hopen
    by_contra hnot
    refine hopen (openCreat_of_none hpath (hmakes.grows.keeps (node_startOf hcwd path))
      (fun d hd => (createdirIn_front h0 hd).mpr (hfront d hd)) ?_ hn hlen)
    obtain ⟨hdir, hplace⟩ := not_or.mp fun h => hnot ⟨hfront, h⟩
    rw [hmakes.frame _ fun d hd he => hplace ⟨d, hd, he.symm⟩]
    cases hx : t.node (placeOf cwd path) with
    | none => rfl
    | some x =>
      cases x with
      | dir => exact absurd hx hdir
      | file a => exact absurd ⟨a, hx⟩ (hfile path ⟨hpath, .inl rfl⟩)
  · intro hcompl
    exact openCreat_ne_noent ((createdirIn_last hcwd hpath h0 hfront).mpr hcompl).access hn hlen

/-- `open_tmp_localfile_4_write`: when its name is intact, and when the file is not missed. -/
theorem openTmpIn_iff {name tmp : Path} (hcwd : t.node cwd = some .dir) (hpath : path ≠ [])
    (hn : slash ∉ name ++ tmp) (hlen : 2 < tmp.length) :
    let filename := path ++ slash :: name
    let missed := openCreat cwd refuse t (filename ++ tmp) = .error .noent
    let r := openTmpIn cwd refuse t filename (filename ++ tmp)
    (r.2.2.1 = filename ↔ (missed → Clear cwd refuse t path)) ∧
      ((∀ d, Names path d → ¬ FileAt cwd t d) →
        (r.2.1 ≠ some .noent ↔ (missed → Clear cwd refuse t path ∧ CompletesPath cwd t path))) := by
  have hname : slash ∉ name := fun h => hn (mem_append_left _ h)
  have hlen' : 2 < (name ++ tmp).length := by
    rw [length_append]
    omega
  have hsplit : path ++ slash :: name ++ tmp = path ++ slash :: (name ++ tmp) := by simp
  simp only
  unfold openTmpIn
  cases hfirst : openCreat cwd refuse t (path ++ slash :: name ++ tmp) with
  | ok t' => simp
  | error e =>
    cases e with
    | notdir => simp
    | other => simp
    | noent =>
      have hmade : ¬ access cwd t path = true := by
        intro hacc
        rw [hsplit] at hfirst
        exact openCreat_ne_noent hacc hn hlen' hfirst
      simp only [splitLast_append path hname, Option.map_some, Option.getD_some, if_neg hmade,
        forall_const, ← createdirIn_eq_zero hcwd]
      split
      · rename_i hne
        refine ⟨iff_of_false (fun he => ?_) hne, fun _ =>
          iff_of_false (not_not.mpr rfl) fun h => hne h.1⟩
        -- the text is cut within the directory
        have hcut := ((createdirIn_makes path).cut hne).length_le
        rw [show (createdirIn cwd refuse t path).2.1 = _ from he] at hcut
        simp only [length_append, length_cons, length_nil] at hcut
        omega
      · rename_i h0
        rw [not_not] at h0
        have hsecond := fun hfile => @reopen_iff cwd refuse t path _ hcwd hpath h0 hfile hn hlen'
        rw [hsplit, and_iff_right h0]
        cases hopen : openCreat cwd refuse (createdirIn cwd refuse t path).2.2
            (path ++ slash :: (name ++ tmp)) with
        | ok t' => simpa [hopen, h0] using hsecond
        | error e => simpa [hopen, h0] using hsecond

end After

/-- **Missing directories.** `createdir` returns 0, and gives the text back as it was, exactly if it
    meets no regular file on its way and no call that it needs is refused. Then every directory
    named by `path` is there exactly if no regular file stands in front of a separator and `path`
    leads to a directory already or to where one of its parts leads, as it does with a separator at
    the end. So with a temporary file whose directory was missing: its name is intact under the
    first condition, and with no regular file in the way it is no longer missed exactly under
    both. -/
theorem createdir_creates (cwd : List Path) (refuse : Path → Bool) (t : Fs) (path : Path)
    (hcwd : t.node cwd = some .dir) (hpath : path ≠ []) :
    ((createdirIn cwd refuse t path).1 = 0 ↔ Clear cwd refuse t path) ∧
      ((createdirIn cwd refuse t path).2.1 = path ↔ Clear cwd refuse t path) ∧
      (Clear cwd refuse t path →
        ((∀ d, Names path d → IsDir cwd (createdirIn cwd refuse t path).2.2 d) ↔
          CompletesPath cwd t path)) ∧
      ∀ (name : Path) (e : FsEnv) (gIndex : Nat), slash ∉ name →
        let filename := path ++ slash :: name
        let tmpfile := filename ++ tmpSuffix e gIndex
        let missed := openCreat cwd refuse t tmpfile = .error .noent
        let r := openTmpIn cwd refuse t filename tmpfile
        (r.2.2.1 = filename ↔ (missed → Clear cwd refuse t path)) ∧
          ((∀ d, Names path d → ¬ FileAt cwd t d) →
            (r.2.1 ≠ some .noent ↔
              (missed → Clear cwd refuse t path ∧ CompletesPath cwd t path))) := by
  have hzero := @createdirIn_eq_zero cwd refuse t path hcwd
  refine ⟨hzero, createdirIn_text.trans hzero, fun hclear => ?_, fun name e gIndex hn => ?_⟩
  · exact createdirIn_names hcwd hpath (hzero.mpr hclear)
  · obtain ⟨hplain, hlen⟩ := tmpSuffix_plain e gIndex
    exact openTmpIn_iff hcwd hpath (fun h => (mem_append.mp h).elim hn hplain) hlen

/-- Only "/d" is there. -/
def diskOnly : Fs where
  node p := if p = [] ∨ p = [ascii "d"] then some .dir else none
  dom := [[], [ascii "d"]]
  root := rfl
  parent p c h := by
    split at h
    · rename_i hp
      rcases hp with hp | hp
      · simp at hp
      have hnil : p = [] :=
        eq_nil_of_length_eq_zero (by simpa using congrArg List.length hp)
      rw [hnil]
      rfl
    · exact absurd rfl h
  covers p h := by
    split at h
    · simpa using ‹_›
    · exact absurd rfl h

/-- With a separator at the end "/d/1/2" is made, though a `mkdir` of "/d" would be refused. -/
theorem createdir_creates_all :
    (createdirIn [] (fun d => d == ascii "/d") diskOnly (ascii "/d/1/2/")).1 = 0 ∧
      (∀ d, Names (ascii "/d/1/2/") d →
        IsDir [] (createdirIn [] (fun d => d == ascii "/d") diskOnly (ascii "/d/1/2/")).2.2 d) ∧
      (createdirIn [] (fun d => d == ascii "/d") diskOnly (ascii "/d/1/2/")).2.1 =
        ascii "/d/1/2/" := by
  obtain ⟨hzero, htext, hdirs, -⟩ := createdir_creates [] (fun d => d == ascii "/d") diskOnly
    (ascii "/d/1/2/") rfl (by decide)
  have h0 : (createdirIn [] (fun d => d == ascii "/d") diskOnly (ascii "/d/1/2/")).1 = 0 := by
    decide +kernel
  exact ⟨h0, (hdirs (hzero.mp h0)).mpr (by decide +kernel), htext.mpr (hzero.mp h0)⟩

/-- **Without a separator at the end "/d/1/2" is not made**, though `createdir` returns 0 and has
    made "/d/1", and the second `open` fails; and when "/d/1" cannot be made, the text is cut. -/
theorem createdir_misses_last :
    ((createdirIn [] (fun _ => false) diskOnly (ascii "/d/1/2")).1 = 0 ∧
        access [] (createdirIn [] (fun _ => false) diskOnly (ascii "/d/1/2")).2.2
          (ascii "/d/1/2") = false) ∧
      ((openTmpIn [] (fun _ => false) diskOnly (ascii "/d/1/2/f") (ascii "/d/1/2/f.t.pfs")).1 =
          .openE ∧
        (openTmpIn [] (fun _ => false) diskOnly (ascii "/d/1/2/f") (ascii "/d/1/2/f.t.pfs")).2.1 =
          some .noent) ∧
      (createdirIn [] (fun _ => true) diskOnly (ascii "/d/1/2/")).1 = -1 ∧
      (createdirIn [] (fun _ => true) diskOnly (ascii "/d/1/2/")).2.1 = ascii "/d/1" := by
  decide +kernel

/-! ## 6. The last directory -/

section Last

variable {cwd : List Path} {refuse : Path → Bool} {t : Fs} {path : Path}

/-- No component is "." or "..". -/
def NoDots (path : Path) : Prop := ∃ names : List Path, compsFrom [] path = names.map .name

theorem place_names (cur names : List Path) : place cur (names.map .name) = cur ++ names := by
  induction names generalizing cur with
  | nil => simp [place]
  | cons n names ih =>
    have hstep : place cur ((n :: names).map .name) = place (cur ++ [n]) (names.map .name) := rfl
    rw [hstep, ih, append_assoc, singleton_append]

theorem placeOf_ne {d s : Path} (hd : d ≠ []) (hdots : NoDots (d ++ slash :: s))
    (hlast : (d ++ slash :: s).getLast? ≠ some slash) :
    placeOf cwd (d ++ slash :: s) ≠ placeOf cwd d := by
  obtain ⟨names, hnames⟩ := hdots
  rw [compsFrom_append] at hnames
  obtain ⟨xs, ys, rfl, hx, hy⟩ := append_eq_map_iff.mp hnames
  have hys : ys ≠ [] := by
    rintro rfl
    have hc := comps_append d s
    rw [comps, if_neg hlast, append_nil, compsFrom_append, ← hy] at hc
    exact comps_ne_nil (cons_ne_nil _ _) (append_cancel_left hc).symm
  rw [placeOf, placeOf, startOf_append hd, compsFrom_append, ← hx, ← hy, ← map_append,
    place_names, place_names]
  intro h
  exact hys (append_right_eq_self.mp (append_cancel_left h))

/-- **The last directory is never made** when no separator follows it: if it was missing, it is
    missing still, whatever `createdir` returns. -/
theorem createdir_not_last (hdots : NoDots path) (hlast : path.getLast? ≠ some slash)
    (hmiss : access cwd t path = false) :
    access cwd (createdirIn cwd refuse t path).2.2 path = false := by
  by_contra hacc
  rw [Bool.not_eq_false] at hacc
  have hbefore : t.node (placeOf cwd path) ≠ none := by
    rw [← (@createdirIn_makes cwd refuse t path).frame (placeOf cwd path) fun d hd => ?_]
    · exact node_of_access hacc
    · obtain ⟨hne, s, rfl⟩ := mem_front.mp hd
      rw [append_assoc, singleton_append] at hdots hlast ⊢
      exact placeOf_ne hne hdots hlast
  obtain ⟨names, hnames⟩ := hdots
  rw [placeOf, hnames, place_names] at hbefore
  have hw := DirTree.walk_names names hbefore
  have hpath : path ≠ [] := by
    rintro rfl
    simp [access, resolve] at hacc
  have hr : access cwd t path = true := by
    rw [access_iff, resolve, if_neg hpath, comps, if_neg hlast, append_nil, hnames, hw,
      placeOf, hnames, place_names]
  cases hmiss.symm.trans hr

variable {dir x name : Path}

theorem isDir_of_openCreat {t' : Fs} {n : Path} (hd : dir ≠ []) (hn : slash ∉ n)
    (hlen : 2 < n.length) (h : openCreat cwd refuse t (dir ++ slash :: n) = .ok t') :
    IsDir cwd t dir := by
  rw [openCreat, if_neg (by simp), startOf_append hd, compsFrom_long hn hlen, DirTree.create] at h
  cases hloc : t.locate (startOf cwd dir) (compsFrom [] dir ++ [.name n]) with
  | error e =>
    rw [hloc] at h
    cases h
  | ok r =>
    obtain ⟨p, c⟩ := r
    obtain ⟨hdir, xs, hxs, hw⟩ := DirTree.locate_names hloc
    rw [← (append_inj' hxs rfl).1] at hw
    have hp : p = placeOf cwd dir := DirTree.walk_eq_place hw
    exact isDir_of_walk hd (hp ▸ hw) (hp ▸ hdir)

/-- What `trim_sep` leaves has no two separators in a row. -/
theorem dir_of_trimSep (h : splitLast (trimSep x) = some (dir, name)) :
    dir.getLast? ≠ some slash := by
  obtain ⟨he, -⟩ := splitLast_eq_some h
  intro hlast
  have hsame : trimSep (trimSep x) = trimSep x := trimAux_trimAux false false x
  have hend : endsSlash false dir = true := by simp [endsSlash, hlast]
  -- the second separator would have been left out
  have hshort : (trimSep (dir ++ slash :: name)).length ≤ dir.length + name.length := by
    rw [trimSep, trimAux_append, hend, length_append]
    exact Nat.add_le_add (trimAux_length_le _ _) (trimAux_length_le true name)
  rw [← he, hsame, he] at hshort
  simp only [length_append, length_cons] at hshort
  omega

/-- **The second `open` never helps**: where the directory of a converted name is missing,
    `open_tmp_localfile_4_write` does not come to a file. -/
theorem reopen_fails {e : FsEnv} {gIndex : Nat}
    (hsplit : splitLast (trimSep x) = some (dir, name)) (hd : dir ≠ []) (hdots : NoDots dir)
    (hmiss : access cwd t dir = false)
    (hfirst : openCreat cwd refuse t (trimSep x ++ tmpSuffix e gIndex) = .error .noent) :
    (openTmpIn cwd refuse t (trimSep x) (trimSep x ++ tmpSuffix e gIndex)).1 ≠ .ok := by
  have hlast := dir_of_trimSep hsplit
  have hagain := @createdir_not_last cwd refuse t dir hdots hlast hmiss
  obtain ⟨he, hn⟩ := splitLast_eq_some hsplit
  obtain ⟨hplain, hlen⟩ := tmpSuffix_plain e gIndex
  unfold openTmpIn
  rw [hfirst]
  simp only [hsplit, Option.map_some, Option.getD_some, hmiss, Bool.false_eq_true, if_false]
  split
  · nofun
  split
  · rename_i t' hopen
    rw [he, append_assoc, cons_append] at hopen
    have hdir := isDir_of_openCreat hd (fun h => (mem_append.mp h).elim hn hplain)
      (by simp; omega) hopen
    rw [hdir.access] at hagain
    cases hagain
  · nofun

theorem reopen_fails_missing : (openTmpIn [] (fun _ => false) diskOnly (trimSep (ascii "/d/1/f"))
    (trimSep (ascii "/d/1/f") ++ tmpSuffix smallFs 0)).1 ≠ .ok :=
  reopen_fails (rfl : splitLast (trimSep (ascii "/d/1/f")) = some (ascii "/d/1", ascii "f"))
    (by decide) ⟨[ascii "d", ascii "1"], by decide⟩ (by decide +kernel) rfl

/-- Nor does `check_disk_space` make the directory it asks about. -/
theorem diskSpace_fails {free : Bool}
    (hsplit : splitLast (trimSep x) = some (dir, name)) (hdots : NoDots dir)
    (hmiss : access cwd t dir = false) :
    (checkDiskSpaceIn cwd refuse free t (trimSep x)).1 = .err := by
  have hagain := @createdir_not_last cwd refuse t dir hdots (dir_of_trimSep hsplit) hmiss
  unfold checkDiskSpaceIn
  simp only [hsplit, hmiss, Bool.false_eq_true, if_false, hagain]
  split
  · rfl
  · simp

end Last

/-! ## 7. The directories of the storage -/

section Init

variable (cwd : List Path) (refuse : Path → Bool)

/-- "datadir/d1/d2/" -/
def outdir (datadir : Path) (d : Nat × Nat) : Path :=
  datadir ++ slash :: decimal d.1 ++ slash :: decimal d.2 ++ [slash]

/-- The pairs that the two loops of `init_storage_dir` go through. -/
def dirPairs (dir1 dir2 : Nat) : List (Nat × Nat) :=
  (List.range dir1).flatMap fun d1 => (List.range dir2).map fun d2 => (d1, d2)

theorem nodup_dirPairs (dir1 dir2 : Nat) : (dirPairs dir1 dir2).Nodup :=
  nodup_range.product nodup_range

theorem mem_dirPairs {dir1 dir2 : Nat} {d : Nat × Nat} :
    d ∈ dirPairs dir1 dir2 ↔ d.1 < dir1 ∧ d.2 < dir2 := by
  have h := @mem_product _ _ (List.range dir1) (List.range dir2) d.1 d.2
  rwa [mem_range, mem_range] at h

theorem length_dirPairs (dir1 dir2 : Nat) : (dirPairs dir1 dir2).length = dir1 * dir2 := by
  have h := length_product (List.range dir1) (List.range dir2)
  rwa [length_range, length_range] at h

/-- The loops of `init_storage_dir`; a failure ends them unless `pfs_test` is set. -/
def initDirs (datadir : Path) (pfsTest : Bool) : List (Nat × Nat) → Fs → Except Fault (Int × Fs)
  | [], t => .ok (0, t)
  | d :: ds, t =>
    if 256 ≤ (outdir datadir d).length then .error .overflow
    else
      let r := createdirIn cwd refuse t (outdir datadir d)
      if r.1 ≠ 0 ∧ pfsTest = false then .ok (-1, r.2.2) else initDirs datadir pfsTest ds r.2.2

/-- `init_storage_dir` as far as it makes directories. -/
def initStorageDir (datadir : Path) (pfsTest : Bool) (dir1 dir2 : Nat) (t : Fs) :
    Except Fault (Int × Fs) :=
  initDirs cwd refuse datadir pfsTest (dirPairs dir1 dir2) t

variable {cwd refuse} {datadir : Path} {t t' : Fs}

theorem initDirs_dirs {ds : List (Nat × Nat)} (hfile : ∀ d ∈ ds, ¬ FileAt cwd t (outdir datadir d))
    (h : initDirs cwd refuse datadir false ds t = .ok (0, t')) :
    t.Grows t' ∧ ∀ d ∈ ds, IsDir cwd t' (outdir datadir d) := by
  induction ds generalizing t with
  | nil =>
    cases h
    exact ⟨.refl _, nofun⟩
  | cons d ds ih =>
    rw [initDirs] at h
    split at h
    · cases h
    simp only [and_true] at h
    split at h
    · cases h
    rename_i h0
    rw [ne_eq, Decidable.not_not] at h0
    have hg := (@createdirIn_makes cwd refuse t (outdir datadir d)).grows
    have hdir := createdirIn_slash (by simp) h0 (hfile d mem_cons_self)
    obtain ⟨hg', hall⟩ := ih
      (fun d' hd' ⟨a, ha⟩ => hfile d' (mem_cons_of_mem _ hd') ⟨a, hg.of_file ha⟩) h
    refine ⟨hg.trans hg', fun d' hd' => ?_⟩
    rcases mem_cons.mp hd' with rfl | hd'
    · exact hdir.mono hg'
    · exact hall d' hd'

/-- **The directories of the storage are all there** when `init_storage_dir` has returned 0: its
    paths end in a separator. -/
theorem initStorageDir_dirs {dir1 dir2 d1 d2 : Nat} (h1 : d1 < dir1) (h2 : d2 < dir2)
    (hfile : ∀ d ∈ dirPairs dir1 dir2, ¬ FileAt cwd t (outdir datadir d))
    (h : initStorageDir cwd refuse datadir false dir1 dir2 t = .ok (0, t')) :
    IsDir cwd t' (outdir datadir (d1, d2)) := by
  exact (initDirs_dirs hfile h).2 _ (mem_dirPairs.mpr ⟨h1, h2⟩)

theorem initStorageDir_dirs_two : ∃ t, initStorageDir [] (fun _ => false) [] false 2 2 diskOnly =
    .ok (0, t) ∧ IsDir [] t (outdir [] (1, 1)) :=
  ⟨_, rfl, @initStorageDir_dirs _ (fun _ => false) _ diskOnly _ 2 2 1 1 (by decide) (by decide)
    (by decide +kernel) rfl⟩

end Init

end Pfs
