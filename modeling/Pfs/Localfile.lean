/-
  The file operations of network/pfs_localfile.c.

  The outcomes of the system calls are an argument (`FsEnv`); every path that is opened, created,
  renamed or unlinked is returned, in order, as a list of `FsOp`.
-/
import Pfs.Lib.Decimal
import Pfs.Task

namespace Pfs

open Lib List

/-! ## 1. Outcomes and operations -/

/-- What the system calls of one handler return. -/
structure FsEnv where
  /-- `access(path, F_OK) == 0` -/
  access : Path → Bool
  mkdir : Path → Bool
  /-- the descriptor of the first `open` of a temporary file, `none` when it fails -/
  openTmp : Option Nat
  /-- `errno == ENOENT` after that -/
  enoent : Bool
  /-- the second `open`, after the directories have been created -/
  reopen : Option Nat
  openRead : Option Nat
  /-- `st_mtime` and `st_size` -/
  stat : Option (Int × Int)
  /-- `getfilemd5`: the 16 bytes of the digest -/
  filemd5 : Option (List UInt8)
  rename : Bool
  /-- `statfs`, and whether enough space is left -/
  diskfree : Option Bool
  /-- the date and time text of `get_strtime`, a numeral of 14 digits -/
  strtime : Nat

inductive FsOp where
  | openRead (p : Path)
  | openWrite (p : Path)
  | mkdir (p : Path)
  | rename (p q : Path)
  | unlink (p : Path)
  deriving DecidableEq, Repr

def FsOp.paths : FsOp → List Path
  | .openRead p => [p]
  | .openWrite p => [p]
  | .mkdir p => [p]
  | .rename p q => [p, q]
  | .unlink p => [p]

inductive LocalRet where
  | ok
  | md5E
  | dirE
  | fileE
  | openE
  | renameE
  deriving DecidableEq, Repr

inductive DiskRet where
  | ok
  | spaceTooSmall
  | err
  deriving DecidableEq, Repr

/-! ## 2. The functions -/

/-- The prefixes of a path that end right before a separator, the empty one left out. -/
def dirPrefixes : Path → Path → List Path
  | _, [] => []
  | before, c :: s =>
    (if c = slash ∧ before ≠ [] then [before] else []) ++ dirPrefixes (before ++ [c]) s

/-- The loop of `createdir`: the directory at which it gave up, and the `mkdir` calls. -/
def mkdirs (e : FsEnv) : List Path → Option Path × List FsOp
  | [] => (none, [])
  | d :: ds =>
    if e.access d then mkdirs e ds
    else if e.mkdir d then ((mkdirs e ds).1, .mkdir d :: (mkdirs e ds).2)
    else (some d, [.mkdir d])

/-- `createdir`: on failure the string it was given stays cut at the directory it gave up at. -/
def createdir (e : FsEnv) (file : Path) : Option Path × List FsOp := mkdirs e (dirPrefixes [] file)

/-- `_<time>_<index>`, with `g_index` printed as an `int`. -/
def getTmpstr (e : FsEnv) (gIndex : Nat) : Path :=
  95 :: decimal e.strtime ++ 95 :: decimalInt (Int.bmod gIndex (2 ^ 32))

/-- ".pfs" -/
def pfsSuffix : Path := [46, 112, 102, 115]

/-- ".tmp4rm" -/
def rmSuffix : Path := [46, 116, 109, 112, 52, 114, 109]

/-- `open_tmp_localfile_4_write` once the temporary name stands in the record: the result, what is
    stored through `fd`, and the record's file name (cut when `createdir` fails). -/
def openTmp (e : FsEnv) (filename tmpfile : Path) : LocalRet × Int × Path × List FsOp :=
  match e.openTmp with
  | some fd => (.ok, fd, filename, [.openWrite tmpfile])
  | none =>
    if e.enoent then
      let dir := ((splitLast filename).map Prod.fst).getD []
      let made := if e.access dir then (none, []) else createdir e dir
      match made.1 with
      | some cut => (.dirE, -1, cut, .openWrite tmpfile :: made.2)
      | none =>
        let ops := .openWrite tmpfile :: made.2 ++ [.openWrite tmpfile]
        match e.reopen with
        | some fd => (.ok, fd, filename, ops)
        | none => (.openE, -1, filename, ops)
    else
      -- an `open` that fails for another reason is not noticed
      (.ok, -1, filename, [.openWrite tmpfile])

/-- `open_tmp_localfile_4_write`: the result, the descriptor if one is stored, the record, and the
    operations. `gIndex` is counted up when a temporary name is made. -/
def openTmpLocalfile4Write (pre datadir : Path) (e : FsEnv) (gIndex : Nat) (base : TaskBase) :
    Except Fault (LocalRet × Option Int × TaskBase × Nat × List FsOp) :=
  match storageConvert pre datadir base.filename with
  | .error f => .error f
  | .ok none => .ok (.dirE, none, base, gIndex, [])
  | .ok (some (ret, file)) =>
    let tmp := file ++ dot :: getTmpstr e gIndex ++ pfsSuffix
    if 256 ≤ tmp.length then .error .overflow
    else
      let r := openTmp e file tmp
      .ok (r.1, some r.2.1, { base with filename := r.2.2.1, retfile := ret, tmpfile := tmp },
        gIndex + 1, r.2.2.2)

/-- `check_localfile_md5` from the digest of `outdir` on: 17 bytes are compared. -/
def checkDigest (e : FsEnv) (base : TaskBase) : LocalRet :=
  match e.filemd5 with
  | none => .fileE
  | some md5 => if md5 ++ [0] = base.filemd5 then .ok else .md5E

/-- `check_localfile_md5(task, VIDEOFILE)`; the result of `storage_convert` is ignored. -/
def checkLocalfileMd5 (pre datadir : Path) (e : FsEnv) (base : TaskBase) :
    Except Fault (LocalRet × TaskBase × List FsOp) :=
  match storageConvert pre datadir base.filename with
  | .error f => .error f
  | .ok none => .ok (checkDigest e base, base, [.openRead base.filename])
  | .ok (some (ret, file)) =>
    let base := { base with filename := file, retfile := ret }
    .ok (checkDigest e base, base, [.openRead file])

/-- `close_tmp_check_mv`; `md5` are the 17 bytes that the `memcmp` reads. -/
def closeTmpCheckMv (e : FsEnv) (base : TaskBase) (fd : Int) (md5 : List UInt8) :
    LocalRet × List FsOp :=
  if fd < 0 then (.openE, [])
  else
    let fast := md5 == base.filemd5
    let ret := if fast then .ok else checkDigest e base
    let ops := if fast then [] else [.openRead base.tmpfile]
    if ret = .ok then
      (if e.rename then .ok else .renameE, ops ++ [.rename base.tmpfile base.filename])
    else (ret, ops)

/-- `open_localfile_4_read` -/
def openLocalfile4Read (e : FsEnv) (base : TaskBase) : Option Nat × List FsOp :=
  (e.openRead, [.openRead base.filename])

/-- `get_localfile_stat` -/
def getLocalfileStat (e : FsEnv) (base : TaskBase) : LocalRet × TaskBase × List FsOp :=
  match e.stat with
  | none => (.dirE, base, [])
  | some (mtime, size) =>
    let base := { base with mtime := mtime, fsize := size }
    match e.filemd5 with
    | none => (.fileE, base, [.openRead base.filename])
    | some md5 =>
      (.ok, { base with filemd5 := md5 ++ base.filemd5.drop 16 }, [.openRead base.filename])

/-- `delete_localfile`: also the file that the timer removes later. -/
def deleteLocalfile (pre datadir : Path) (e : FsEnv) (base : TaskBase) :
    Except Fault (LocalRet × TaskBase × List FsOp × Option Path) :=
  match storageConvert pre datadir base.filename with
  | .error f => .error f
  | .ok none => .ok (.dirE, base, [], none)
  | .ok (some (ret, file)) =>
    let base := { base with filename := file, retfile := ret }
    let rmfile := (file ++ rmSuffix).take 255
    if e.rename then .ok (.ok, base, [.rename file rmfile], some rmfile)
    else .ok (.renameE, base, [.rename file rmfile], none)

/-- `check_disk_space` -/
def checkDiskSpace (e : FsEnv) (base : TaskBase) : DiskRet × List FsOp :=
  match splitLast base.filename with
  | none => (.err, [])
  | some (path, _) =>
    let made := if e.access path then (none, []) else createdir e path
    match made.1 with
    | some _ => (.err, made.2)
    | none =>
      match e.diskfree with
      | none => (.err, made.2)
      | some false => (.spaceTooSmall, made.2)
      | some true => (.ok, made.2)

/-! ## 3. Which paths they touch -/

def OpsConfined (datadir : Path) (ops : List FsOp) : Prop :=
  ∀ op ∈ ops, ∀ p ∈ op.paths, Confined datadir p

/-- `datadir` exists. -/
def DatadirExists (datadir : Path) (e : FsEnv) : Prop := ∀ q, LeadsTo datadir q → e.access q = true

section Confinement

variable {pre datadir : Path} {e : FsEnv} {base : TaskBase}

theorem OpsConfined.nil : OpsConfined datadir [] := fun _ h => by cases h

theorem OpsConfined.cons {op : FsOp} {ops : List FsOp} (h : ∀ p ∈ op.paths, Confined datadir p)
    (hs : OpsConfined datadir ops) : OpsConfined datadir (op :: ops) := by
  intro o ho
  rcases mem_cons.mp ho with rfl | ho
  · exact h
  · exact hs o ho

theorem OpsConfined.append {ops ops' : List FsOp} (h : OpsConfined datadir ops)
    (h' : OpsConfined datadir ops') : OpsConfined datadir (ops ++ ops') := by
  intro o ho
  rcases mem_append.mp ho with ho | ho
  · exact h o ho
  · exact h' o ho

variable {p : Path}

theorem opsConfined_openRead (h : Confined datadir p) : OpsConfined datadir [.openRead p] :=
  .cons (by simpa [FsOp.paths] using h) .nil

theorem opsConfined_openWrite (h : Confined datadir p) : OpsConfined datadir [.openWrite p] :=
  .cons (by simpa [FsOp.paths] using h) .nil

theorem opsConfined_unlink (h : Confined datadir p) : OpsConfined datadir [.unlink p] :=
  .cons (by simpa [FsOp.paths] using h) .nil

theorem opsConfined_rename {q : Path} (hp : Confined datadir p) (hq : Confined datadir q) :
    OpsConfined datadir [.rename p q] :=
  .cons (by simpa [FsOp.paths] using ⟨hp, hq⟩) .nil

theorem mem_dirPrefixes {before s q : Path} (h : q ∈ dirPrefixes before s) :
    ∃ r, before ++ s = q ++ slash :: r := by
  induction s generalizing before with
  | nil => cases h
  | cons c s ih =>
    rcases mem_append.mp h with h | h
    · split at h
      · rename_i hc
        rw [mem_singleton] at h
        exact ⟨s, by rw [h, hc.1]⟩
      · cases h
    · obtain ⟨r, hr⟩ := ih h
      exact ⟨r, by rw [← hr, append_assoc]; rfl⟩

theorem mkdirs_confined {ds : List Path} (h : ∀ d ∈ ds, Confined datadir d ∨ e.access d = true) :
    OpsConfined datadir (mkdirs e ds).2 := by
  induction ds with
  | nil => exact .nil
  | cons d ds ih =>
    have ih' := ih fun d hd => h d (mem_cons_of_mem _ hd)
    unfold mkdirs
    by_cases ha : e.access d = true
    · rw [if_pos ha]
      exact ih'
    have hd : Confined datadir d := (h d mem_cons_self).resolve_right ha
    rw [if_neg ha]
    split
    · exact .cons (by simpa [FsOp.paths] using hd) ih'
    · exact .cons (by simpa [FsOp.paths] using hd) .nil

theorem createdir_confined {dir name : Path} (hp : Confined datadir (dir ++ slash :: name))
    (hd : DatadirExists datadir e) : OpsConfined datadir (createdir e dir).2 := by
  refine mkdirs_confined fun q hq => ?_
  obtain ⟨r, hr⟩ := mem_dirPrefixes hq
  rw [nil_append] at hr
  have hsplit : dir ++ slash :: name = q ++ slash :: (r ++ slash :: name) := by
    rw [hr, append_assoc, cons_append]
  exact (hp.split hsplit).imp_right (hd q)

theorem notMem_decimal (n : Nat) : slash ∉ decimal n := by
  intro h
  have hd := decimal_digit h
  exact absurd hd (by decide)

theorem notMem_tmpname (e : FsEnv) (gIndex : Nat) :
    slash ∉ dot :: getTmpstr e gIndex ++ pfsSuffix := by
  have hi : slash ∉ decimalInt (Int.bmod gIndex (2 ^ 32)) := by
    unfold decimalInt
    split
    · simp only [mem_cons, not_or]
      exact ⟨by decide, notMem_decimal _⟩
    · exact notMem_decimal _
  simp only [getTmpstr, mem_append, mem_cons, not_or, cons_append]
  exact ⟨by decide, by decide, ⟨notMem_decimal _, by decide, hi⟩, by decide⟩

theorem openTmp_confined {file tmp : Path} (hf : Confined datadir file) (ht : Confined datadir tmp)
    (hd : DatadirExists datadir e) : OpsConfined datadir (openTmp e file tmp).2.2.2 := by
  have hmade : OpsConfined datadir (if e.access (((splitLast file).map Prod.fst).getD []) then
      ((none, []) : Option Path × List FsOp)
      else createdir e (((splitLast file).map Prod.fst).getD [])).2 := by
    split
    · exact .nil
    cases hs : splitLast file with
    | none => exact absurd hf.slash_mem (splitLast_eq_none.mp hs)
    | some q =>
      obtain ⟨dir, name⟩ := q
      have he := (splitLast_eq_some hs).1
      exact createdir_confined (he ▸ hf) hd
  have hw := opsConfined_openWrite ht
  unfold openTmp
  split
  · exact hw
  split
  · simp only
    split
    · exact hw.append hmade
    · have hall := hw.append (hmade.append hw)
      split <;> exact hall
  · exact hw

theorem openTmp_filename (e : FsEnv) (file tmp : Path) :
    (openTmp e file tmp).1 = .dirE ∨ (openTmp e file tmp).2.2.1 = file := by
  unfold openTmp
  split
  · exact .inr rfl
  split
  · simp only
    split
    · exact .inl rfl
    · split <;> exact .inr rfl
  · exact .inr rfl

/-- **A temporary file is opened at a confined path**, and the record's two names are confined
    unless the name had no separator or a directory could not be created. -/
theorem openTmpLocalfile4Write_confined {gIndex : Nat}
    {r : LocalRet × Option Int × TaskBase × Nat × List FsOp}
    (h : openTmpLocalfile4Write pre datadir e gIndex base = .ok r) (hd : DatadirExists datadir e) :
    OpsConfined datadir r.2.2.2.2 ∧
      (r.1 = .ok → Confined datadir r.2.2.1.filename ∧ Confined datadir r.2.2.1.tmpfile) := by
  unfold openTmpLocalfile4Write at h
  split at h
  · cases h
  · cases h
    exact ⟨.nil, fun he => by cases he⟩
  rename_i ret file hc
  have hf := storageConvert_confined hc
  have ht : Confined datadir (file ++ dot :: getTmpstr e gIndex ++ pfsSuffix) := by
    rw [append_assoc, cons_append]
    exact hf.append (notMem_tmpname e gIndex)
  simp only at h
  split at h
  · cases h
  cases h
  refine ⟨openTmp_confined hf ht hd, fun hok => ⟨?_, ht⟩⟩
  rcases openTmp_filename e file (file ++ dot :: getTmpstr e gIndex ++ pfsSuffix) with hdir | hfile
  · cases hdir.symm.trans hok
  · simp only [hfile]
    exact hf

theorem checkLocalfileMd5_confined {r : LocalRet × TaskBase × List FsOp}
    (h : checkLocalfileMd5 pre datadir e base = .ok r) (hs : slash ∈ base.filename) :
    OpsConfined datadir r.2.2 ∧ Confined datadir r.2.1.filename := by
  unfold checkLocalfileMd5 at h
  split at h
  · cases h
  · rename_i hc
    exact absurd hs (storageConvert_none hc)
  rename_i hc
  cases h
  have hf := storageConvert_confined hc
  exact ⟨opsConfined_openRead hf, hf⟩

theorem deleteLocalfile_confined {r : LocalRet × TaskBase × List FsOp × Option Path}
    (h : deleteLocalfile pre datadir e base = .ok r) :
    OpsConfined datadir r.2.2.1 ∧ ∀ p ∈ r.2.2.2.toList, Confined datadir p := by
  unfold deleteLocalfile at h
  split at h
  · cases h
  · cases h
    exact ⟨.nil, by simp⟩
  rename_i ret file hc
  have hf := storageConvert_confined hc
  have hlen := storageConvert_length hc
  -- the name is cut only inside the suffix
  have hrm : Confined datadir ((file ++ rmSuffix).take 255) := by
    rw [take_append, take_of_length_le (by omega)]
    exact hf.append fun hm => absurd (mem_of_mem_take hm) (by decide)
  have hops := opsConfined_rename hf hrm
  simp only at h
  split at h
  · cases h
    exact ⟨hops, by simpa using hrm⟩
  · cases h
    exact ⟨hops, by simp⟩

theorem closeTmpCheckMv_confined {fd : Int} {md5 : List UInt8} (hf : Confined datadir base.filename)
    (ht : Confined datadir base.tmpfile) :
    OpsConfined datadir (closeTmpCheckMv e base fd md5).2 := by
  have hmv := opsConfined_rename ht hf
  have hread := opsConfined_openRead ht
  unfold closeTmpCheckMv
  split
  · exact .nil
  by_cases hfast : (md5 == base.filemd5) = true
  · simp only [hfast, if_true, nil_append]
    exact hmv
  simp only [hfast, Bool.false_eq_true, if_false]
  split
  · exact hread.append hmv
  · exact hread

theorem checkDiskSpace_confined (hf : Confined datadir base.filename)
    (hd : DatadirExists datadir e) : OpsConfined datadir (checkDiskSpace e base).2 := by
  unfold checkDiskSpace
  cases hs : splitLast base.filename with
  | none => exact .nil
  | some q =>
    obtain ⟨path, name⟩ := q
    have he := (splitLast_eq_some hs).1
    have hmade : OpsConfined datadir (if e.access path then ((none, []) : Option Path × List FsOp)
        else createdir e path).2 := by
      split
      · exact .nil
      · exact createdir_confined (he ▸ hf) hd
    simp only
    split
    · exact hmade
    · split <;> exact hmade

theorem getLocalfileStat_confined (hf : Confined datadir base.filename) :
    OpsConfined datadir (getLocalfileStat e base).2.2 ∧
      (getLocalfileStat e base).2.1.filename = base.filename := by
  unfold getLocalfileStat
  split
  · exact ⟨.nil, rfl⟩
  · simp only
    split <;> exact ⟨opsConfined_openRead hf, rfl⟩

end Confinement

end Pfs
