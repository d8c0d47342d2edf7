/-
  The names of an upload in memory: `trim_sep`, `storage_convert`,
  `open_tmp_localfile_4_write`, `delete_localfile` of network/pfs_localfile.c and
  `get_local_filename`, `get_local_bname` of network/U/pfs_up_task.c.

  `Paths`, `Localfile` and `UpName` have these functions on texts. Here they work on the arrays of
  the record and on their own, access by access; the record comes from a client, so nothing is known
  of its bytes.

  Main results: `storageConvert_text`, `pathCall_within`, `paths_outside`.
-/
import Pfs.Lib.CMem
import Pfs.Machine

namespace Pfs.Bytes

open Lib List

/-! ## 1. The functions -/

/-- What these functions use of a `t_task_base`. -/
structure Record where
  filename : Buf 256
  tmpfile : Buf 256
  retfile : Buf 256
  mtime : Int
  type : UInt8
  deriving DecidableEq

structure PathConf where
  datadir : Path
  /-- "pfs_deldir", or "/diska/pfs/path/delfile/" -/
  deldir : Path
  datadir_lt : datadir.length < 256
  datadir_nul : 0 ∉ datadir
  deldir_nul : 0 ∉ deldir

/-- What a name is made of: `time`, `self_ip`, `pic_index`, and `get_max_free_storage`. -/
structure NameEnv where
  now : Int
  selfIp : UInt32
  picIndex : Nat
  d1 : UInt32
  d2 : UInt32
  /-- a `time_t` -/
  now_lt : now.natAbs < 2 ^ 63 + 1
  /-- `pic_index` is set back at 99999 -/
  pic_lt : picIndex < 99999

/-- `last && *last == *t && *t == sep` -/
def sepAgain (buf : Buf 1024) (sep c : UInt8) : Option Nat → Except Oob Bool
  | none => .ok false
  | some l => (buf.get l).map fun d => d == c && c == sep

/-- The loop of `trim_sep`, with the positions `t`, `s` and `last`. -/
def trimLoop {n : Nat} (buf : Buf 1024) (sep : UInt8) :
    Nat → Nat → Nat → Option Nat → Buf n → Except Oob (Buf n)
  | 0, _, _, _, _ => .error .outside
  | fuel + 1, t, s, last, b => do
    let c ← buf.get t
    if c = 0 then .ok b
    else
      let again ← sepAgain buf sep c last
      if again then trimLoop buf sep fuel (t + 1) s last b
      else
        let b' ← b.set s c
        trimLoop buf sep fuel (t + 1) (s + 1) (if c = sep then some t else none) b'

/-- `trim_sep` -/
def trimSep {n : Nat} (b : Buf n) (sep : UInt8) : Except Oob (Buf n) := do
  let text ← b.str 0
  let (l, buf) ← (Buf.zero 1024).snprintf 0 1024 text
  if 1023 ≤ l then .ok b
  else
    let b' ← b.clear l
    trimLoop buf sep 1024 0 0 none b'

/-- The backward scan of `storage_convert`: `t` is the next position and one more, `last` the
    leftmost separator so far. Nothing stops it at the first character. -/
def backLoop (filename : Buf 256) : Nat → Nat → Except Oob Nat
  | 0, _ => .error .outside
  | t + 1, last => do
    let c ← filename.get t
    if isDirChar c then backLoop filename t (if c = slash then t else last) else .ok last

/-- `storage_convert`; the text in the log is one that `strrchr` has read before. -/
def storageConvert (conf : PathConf) (r : Record) : Except Oob (LocalRet × Record) := do
  let realfile ← (Buf.zero 256).strcat conf.datadir
  match ← r.filename.strrchr slash with
  | none => .ok (.dirE, r)
  | some bname =>
    let last ← backLoop r.filename bname bname
    let text ← r.filename.str last
    let realfile ← realfile.strcat text
    let (_, retfile) ← r.retfile.snprintf 0 256 text
    let filename ← r.filename.clear 256
    let full ← realfile.str 0
    let (_, filename) ← filename.snprintf 0 256 full
    let filename ← trimSep filename slash
    .ok (.ok, { r with filename := filename, retfile := retfile })

/-- `get_tmpstr` into `tmpstr[32]`, with the time in `t[16]`. -/
def getTmpstr (e : FsEnv) (gIndex : Nat) : Except Oob (Buf 32) := do
  let t ← (Buf.zero 16).write 0 (decimal e.strtime ++ [0])
  let time ← t.str 0
  let (_, d) ← (Buf.zero 32).snprintf 0 32
    (95 :: time ++ 95 :: decimalInt (Int.bmod gIndex (2 ^ 32)))
  .ok d

/-- The loop of `createdir`. -/
def createLoop {n : Nat} (e : FsEnv) : Nat → Nat → Buf n → Except Oob (Bool × Buf n)
  | 0, _, _ => .error .outside
  | fuel + 1, len, file => do
    match ← file.strchr len slash with
    | none => .ok (true, file)
    | some pos =>
      let file ← file.set pos 0
      let dir ← file.str 0
      if e.access dir || e.mkdir dir then
        let file ← file.set pos slash
        createLoop e fuel (pos + 1) file
      else .ok (false, file)

/-- Whether the directory is there, or is made: `access`, then `createdir`. -/
def makeDirs (e : FsEnv) (filename : Buf 256) : Except Oob (Bool × Buf 256) := do
  let dir ← filename.str 0
  if e.access dir then .ok (true, filename) else createLoop e 256 1 filename

/-- `open_tmp_localfile_4_write` from the first `open` on. -/
def openTmp (e : FsEnv) (r : Record) : Except Oob (LocalRet × Record) := do
  let _ ← r.tmpfile.str 0
  if e.openTmp.isSome || !e.enoent then .ok (.ok, r)
  else
    match ← r.filename.strrchr slash with
    | none => .ok (.dirE, r)
    | some t =>
      let filename ← r.filename.set t 0
      let (made, filename) ← makeDirs e filename
      let filename ← filename.set t slash
      if made then
        let _ ← r.tmpfile.str 0
        .ok (if e.reopen.isSome then .ok else .openE, { r with filename := filename })
      else .ok (.dirE, { r with filename := filename })

def makeTmpfile (e : FsEnv) (gIndex : Nat) (filename tmpfile : Buf 256) :
    Except Oob (Buf 256) := do
  let tmpfile ← tmpfile.clear 256
  let file ← filename.str 0
  let (_, tmpfile) ← tmpfile.snprintf 0 256 file
  let tmpfile ← tmpfile.strcat [dot]
  let tmpstr ← getTmpstr e gIndex
  let t ← tmpstr.str 0
  let tmpfile ← tmpfile.strcat t
  tmpfile.strcat pfsSuffix

/-- `if (storage_convert(task) != LOCALFILE_OK) return LOCALFILE_DIR_E;` and then `k`. -/
def onConverted (conf : PathConf) (r : Record) (k : Record → Except Oob (LocalRet × Record)) :
    Except Oob (LocalRet × Record) := do
  let x ← storageConvert conf r
  if x.1 ≠ .ok then .ok (.dirE, x.2) else k x.2

/-- `open_tmp_localfile_4_write` -/
def openTmpLocalfile4Write (conf : PathConf) (e : FsEnv) (gIndex : Nat) (r : Record) :
    Except Oob (LocalRet × Record) :=
  onConverted conf r fun r => do
    let tmpfile ← makeTmpfile e gIndex r.filename r.tmpfile
    openTmp e { r with tmpfile := tmpfile }

/-- `add_2_del_file`: `file[256]`, and the members `dtime[10]` and `file[256]` of the entry. -/
def addToDelFile (conf : PathConf) (r : Record) : Except Oob Unit := do
  let _ ← (Buf.zero 256).write 0 (conf.deldir ++ ascii "/del_list" ++ [0])
  let _ ← (Buf.zero 10).snprintf 0 10 (decimalInt r.mtime)
  let file ← r.filename.str 0
  let _ ← (Buf.zero 256).snprintf 0 256 file
  .ok ()

/-- `delete_localfile` -/
def deleteLocalfile (conf : PathConf) (e : FsEnv) (r : Record) : Except Oob (LocalRet × Record) :=
  onConverted conf r fun r => do
    let file ← r.filename.str 0
    let (_, rmfile) ← (Buf.zero 256).snprintf 0 256 (file ++ rmSuffix)
    let rm ← rmfile.str 0
    if e.rename = false then .ok (.renameE, r)
    else
      addToDelFile conf r
      -- `pfs_timer.args`
      let _ ← (Buf.zero 256).snprintf 0 256 rm
      .ok (.ok, r)

/-- The Base64 part of a name in `localfile[256]`. -/
def makeStamp (e : NameEnv) : Except Oob (Buf 256) := do
  let (_, real) ← (Buf.zero 256).snprintf 0 256 (realfile e.now e.selfIp e.picIndex)
  let text ← real.str 0
  (Buf.zero 256).write 0 (base64 text ++ [0])

/-- What comes from the first dot of the client's name on is put behind it. -/
def addExtension (filename localfile : Buf 256) : Except Oob (Buf 256) := do
  match ← filename.strchr 0 dot with
  | none => .ok localfile
  | some t => filename.str t >>= localfile.strcat

/-- `get_local_filename` -/
def getLocalFilename (e : NameEnv) (r : Record) : Except Oob Record := do
  if r.type ≠ TASK_ADDFILE then .ok r
  else
    let localfile ← makeStamp e
    let localfile ← addExtension r.filename localfile
    let filename ← r.filename.clear 256
    let name ← localfile.str 0
    let (_, filename) ← filename.snprintf 0 256 (storageDirs e.d1 e.d2 ++ slash :: name)
    .ok { r with filename := filename }

/-- Where `basename` cuts a name that ends in separators. -/
def basenameCut (text : Path) : Option Nat :=
  let t := (text.reverse.dropWhile (· == slash)).reverse
  if t ≠ [] ∧ t.length < text.length then some t.length else none

def cutAt (b : Buf 256) : Option Nat → Except Oob (Buf 256)
  | none => .ok b
  | some k => b.set k 0

/-- `get_local_bname` -/
def getLocalBname (e : NameEnv) (r : Record) : Except Oob Record := do
  let text ← r.filename.str 0
  let filename ← cutAt r.filename (basenameCut text)
  let (_, tmpname) ← (Buf.zero 128).snprintf 0 128 (basename text)
  let name ← tmpname.str 0
  let (l, filename) ← filename.snprintf 0 256 (storageDirs e.d1 e.d2 ++ slash :: name)
  let filename ← filename.set l 0
  .ok { r with filename := filename }

/-! ## 2. The loops -/

section Loops

variable {filename : Buf 256}

theorem lastIdx_slash (s : Path) : lastIdx slash s = (splitLast s).map fun p => p.1.length := by
  induction s with
  | nil => rfl
  | cons c s ih =>
    rw [lastIdx, splitLast, ih]
    cases splitLast s with
    | none => by_cases hc : c = slash <;> simp [hc]
    | some p => simp

theorem backLoop_from {dir tail : Path} (h : filename.Holds 0 (dir ++ tail)) (d : Path) :
    ∀ done, dir = d ++ done → (∀ c ∈ done, isDirChar c = true) →
      backLoop filename d.length (dir.length - (done.dropWhile (· != slash)).length) =
        if d.all isDirChar then .error .outside
        else .ok (dir.length -
          ((List.rtakeWhile isDirChar d ++ done).dropWhile (· != slash)).length) := by
  induction d using List.reverseRecOn with
  | nil =>
    intro done _ _
    rfl
  | append_singleton d c ih =>
    intro done hdir hdone
    have hget : filename.get d.length = .ok c := by
      rw [hdir, append_assoc, append_assoc] at h
      exact h.get rfl
    rw [length_append, length_singleton, backLoop, hget, ok_bind]
    by_cases hc : isDirChar c = true
    · -- `c` joins what is done
      have hnext := ih (c :: done) (by rw [hdir]; simp) (by
        intro x hx
        obtain rfl | hx := mem_cons.mp hx
        · exact hc
        · exact hdone x hx)
      rw [if_pos hc, rtakeWhile_concat_pos _ _ _ hc]
      have hlast : (if c = slash then d.length
          else dir.length - (done.dropWhile (· != slash)).length) =
          dir.length - ((c :: done).dropWhile (· != slash)).length := by
        by_cases hs : c = slash
        · rw [if_pos hs, hs, dropWhile_cons_of_neg (by simp), hdir]
          simp
        · rw [if_neg hs, dropWhile_cons_of_pos (by simpa using hs)]
      rw [hlast, hnext]
      simp [hc]
    · rw [if_neg hc, rtakeWhile_concat_neg _ _ _ hc]
      simp [hc]

theorem backLoop_eq {dir tail : Path} (h : filename.Holds 0 (dir ++ tail)) :
    backLoop filename dir.length dir.length =
      if dir.all isDirChar then .error .outside
      else .ok (dir.length - (digitDirs [] dir).length) := by
  have hloop := backLoop_from h dir [] (by simp) (by simp)
  simpa [digitDirs] using hloop

/-- What `last` says: it is set behind a separator, and points to one. -/
def LastSep (buf : Buf 1024) : Bool → Option Nat → Prop
  | false, last => last = none
  | true, last => ∃ l, last = some l ∧ buf.get l = .ok slash

theorem trimLoop_eq {n : Nat} {buf : Buf 1024} (rest : Path) :
    ∀ (pre : Path) (fuel s : Nat) (after : Bool) (last : Option Nat) (b : Buf n),
      buf.Holds 0 (pre ++ rest) → LastSep buf after last → s + rest.length ≤ n →
      rest.length < fuel →
      ∃ b', trimLoop buf slash fuel pre.length s last b = .ok b' ∧
        b'.bytes = b.bytes.take s ++ trimAux after rest ++
          b.bytes.drop (s + (trimAux after rest).length) := by
  induction rest with
  | nil =>
    intro pre fuel s after last b hbuf _ _ hfuel
    obtain ⟨fuel, rfl⟩ : ∃ k, fuel = k + 1 := ⟨fuel - 1, by omega⟩
    rw [append_nil] at hbuf
    refine ⟨b, ?_, by simp [trimAux]⟩
    rw [trimLoop, hbuf.get_nul, ok_bind, if_pos rfl]
  | cons c rest ih =>
    intro pre fuel s after last b hbuf hlast hlen hfuel
    obtain ⟨fuel, rfl⟩ : ∃ k, fuel = k + 1 := ⟨fuel - 1, by omega⟩
    rw [length_cons] at hlen hfuel
    have hget : buf.get pre.length = .ok c := hbuf.get rfl
    have hc0 : c ≠ 0 := by
      rintro rfl
      exact hbuf.notMem (by simp)
    have hbuf' : buf.Holds 0 ((pre ++ [c]) ++ rest) := by simpa using hbuf
    have hagain : sepAgain buf slash c last = .ok (after && c == slash) := by
      cases after with
      | false =>
        rw [show last = none from hlast]
        rfl
      | true =>
        obtain ⟨l, rfl, hl⟩ := hlast
        rw [sepAgain, hl]
        by_cases hc : c = slash <;> simp [Except.map, hc]
    rw [trimLoop, hget, ok_bind, if_neg hc0, hagain, ok_bind, trimAux]
    by_cases hskip : (after && c == slash) = true
    · -- one more of them
      rw [if_pos hskip, if_pos hskip]
      rw [Bool.and_eq_true] at hskip
      obtain ⟨b', hb', hbytes⟩ := ih (pre ++ [c]) fuel s true last b hbuf' (hskip.1 ▸ hlast)
        (by omega) (by omega)
      rw [length_append, length_singleton] at hb'
      exact ⟨b', hb', hbytes⟩
    rw [if_neg hskip, if_neg hskip]
    obtain ⟨b₁, hb₁, hbytes₁⟩ := @Buf.write_eq_ok n b s [c] (by simp; omega)
    have hlast' : LastSep buf (c == slash) (if c = slash then some pre.length else none) := by
      by_cases hc : c = slash
      · rw [if_pos hc, hc, beq_self_eq_true]
        exact ⟨_, rfl, hc ▸ hget⟩
      · rw [if_neg hc, beq_eq_false_iff_ne.mpr hc]
        rfl
    obtain ⟨b', hb', hbytes⟩ := ih (pre ++ [c]) fuel (s + 1) (c == slash) _ b₁ hbuf' hlast'
      (by omega) (by omega)
    rw [length_append, length_singleton] at hb'
    refine ⟨b', by rw [Buf.set, hb₁, ok_bind, hb'], ?_⟩
    have hpre : (b.bytes.take s ++ [c]).length = s + 1 := by
      rw [length_append, length_take, b.size, length_singleton]
      omega
    rw [hbytes, hbytes₁, ← hpre, take_left, drop_length_add_append, drop_drop]
    simp only [length_cons, length_nil, append_assoc, cons_append,
      nil_append, Nat.add_assoc, Nat.add_comm 1, Nat.zero_add]

/-- The loop of `createdir` stays within the text and its terminator: what it cuts it puts back. -/
theorem createLoop_ok {n : Nat} (e : FsEnv) (fuel : Nat) :
    ∀ (len : Nat) (s : Path) (file : Buf n), file.Holds len s → s.length < fuel →
      ∃ r, createLoop e fuel len file = .ok r := by
  induction fuel with
  | zero =>
    intro len s file _ hfuel
    omega
  | succ fuel ih =>
    intro len s file h hfuel
    rw [createLoop, Buf.strchr_eq h (by decide), ok_bind]
    by_cases hmem : slash ∈ s
    · rw [if_pos hmem]
      have hidx := idxOf_lt_length_of_mem hmem
      have hlt := h.lt_size
      obtain ⟨f₁, hf₁, hbytes₁⟩ := @Buf.set_eq n file (len + s.idxOf slash) 0 (by omega)
      have hterm : f₁.Terminated := by
        rw [Buf.Terminated, hbytes₁]
        exact List.mem_set (by rw [file.size]; omega) _
      obtain ⟨dir, hdir⟩ := Buf.exists_holds.mpr hterm
      obtain ⟨f₂, hf₂, hbytes₂⟩ := @Buf.set_eq n f₁ (len + s.idxOf slash) slash (by omega)
      simp only [hf₁, ok_bind, hdir.str]
      by_cases hmade : (e.access dir || e.mkdir dir) = true
      · rw [if_pos hmade]
        simp only [hf₂, ok_bind]
        refine ih _ (s.drop (s.idxOf slash + 1)) f₂ ?_ (by rw [length_drop]; omega)
        -- nothing behind the separator has changed
        obtain ⟨tail, htail, h0⟩ := h
        refine ⟨tail, ?_, fun hs => h0 (mem_of_mem_drop hs)⟩
        rw [hbytes₂, hbytes₁, drop_set_of_lt (by omega), drop_set_of_lt (by omega),
          Nat.add_assoc, ← drop_drop, htail, drop_append_of_le_length (by omega)]
      · rw [if_neg hmade]
        exact ⟨_, rfl⟩
    · rw [if_neg hmem]
      exact ⟨_, rfl⟩

end Loops

/-! ## 3. `trim_sep` and `storage_convert` -/

theorem trimAux_sublist (after : Bool) (s : Path) : List.Sublist (trimAux after s) s := by
  induction s generalizing after with
  | nil => exact List.Sublist.refl _
  | cons c s ih =>
    rw [trimAux]
    split
    · exact (ih true).cons c
    · exact (ih _).cons_cons c

theorem trimSep_eq {b : Buf 256} {s : Path} (h : b.Holds 0 s) :
    ∃ b', trimSep b slash = .ok b' ∧ b'.Holds 0 (Pfs.trimSep s) := by
  have hlt := h.lt
  obtain ⟨buf, hbuf, hcopy⟩ := Buf.snprintf_text (Buf.zero 1024) h.notMem (by omega)
  obtain ⟨b₁, hb₁, hbytes₁⟩ := @Buf.clear_eq 256 b s.length (Nat.le_of_lt hlt)
  obtain ⟨b', hb', hbytes⟩ := trimLoop_eq s [] 1024 0 false none b₁ hcopy rfl (by omega) (by omega)
  refine ⟨b', ?_, ?_⟩
  · rw [trimSep, h.str, ok_bind, hbuf, ok_bind]
    simp only [hb₁, ok_bind]
    rw [if_neg (by omega)]
    exact hb'
  · -- a zero stands behind what is written
    have hsub := trimAux_sublist false s
    obtain ⟨tail, htail⟩ := h.tail
    have hzero : b₁.bytes = List.replicate (s.length + 1) 0 ++ tail := by
      rw [hbytes₁, htail, drop_left, replicate_succ', append_assoc]
      rfl
    have hdrop : b₁.bytes.drop (trimAux false s).length =
        0 :: (List.replicate (s.length - (trimAux false s).length) 0 ++ tail) := by
      have hle := hsub.length_le
      rw [hzero, drop_append_of_le_length (by rw [length_replicate]; omega),
        drop_replicate, Nat.succ_sub hle, replicate_succ, cons_append]
    refine ⟨List.replicate (s.length - (trimAux false s).length) 0 ++ tail, ?_,
      fun hmem => h.notMem (hsub.subset hmem)⟩
    rw [drop_zero, hbytes, take_zero, nil_append, Nat.zero_add, hdrop]
    rfl

theorem digitDirs_suffix (dir : Path) : digitDirs [] dir <:+ dir :=
  (dropWhile_suffix _).trans (rtakeWhile_suffix _ _)

section Convert

variable {conf : PathConf} {r : Record} {s : Path}

theorem backLoop_iff {dir name : Path} (h : r.filename.Holds 0 (dir ++ slash :: name)) :
    EndsIff True (dir.all isDirChar = false)
      (fun last => r.filename.Holds last (digitDirs [] dir ++ slash :: name))
      (backLoop r.filename dir.length dir.length) := by
  rw [backLoop_eq h]
  cases dir.all isDirChar with
  | true => exact ⟨fun hf => (nomatch hf), fun _ _ hf => (nomatch hf)⟩
  | false =>
    obtain ⟨front, hfront⟩ := digitDirs_suffix dir
    have hlen : dir.length - (digitDirs [] dir).length = front.length := by
      have := congrArg List.length hfront
      rw [length_append] at this
      omega
    rw [if_neg Bool.false_ne_true, hlen]
    rw [← hfront, append_assoc] at h
    exact Ends.always (ends_ok h.drop) rfl

/-- The name `s` can be converted: something in front of its last component stops the scan, and
    what is kept of it fits behind `datadir`. -/
def ConvertFits (conf : PathConf) (s : Path) : Prop :=
  ∀ p ∈ splitLast s, p.1.all isDirChar = false ∧
    conf.datadir.length + (digitDirs [] p.1 ++ slash :: p.2).length < 256

instance (conf : PathConf) (s : Path) : Decidable (ConvertFits conf s) :=
  inferInstanceAs (Decidable (∀ p ∈ splitLast s, _ ∧ _))

/-- The name behind `datadir`, `none` where it has no separator. -/
def converted (conf : PathConf) (s : Path) : Option Path :=
  (splitLast s).map fun p => Pfs.trimSep (conf.datadir ++ (digitDirs [] p.1 ++ slash :: p.2))

/-- What `storage_convert` returns and leaves in the record of the name `s`. -/
def Converts (conf : PathConf) (r : Record) (s : Path) (x : LocalRet × Record) : Prop :=
  splitLast s = none ∧ x = (.dirE, r) ∨ ∃ p filename retfile, splitLast s = some p ∧
    x = (.ok, { r with filename := filename, retfile := retfile }) ∧
    filename.Holds 0 (Pfs.trimSep (conf.datadir ++ (digitDirs [] p.1 ++ slash :: p.2))) ∧
    retfile.Holds 0 (digitDirs [] p.1 ++ slash :: p.2)

theorem storageConvert_iff (h : r.filename.Holds 0 s) :
    EndsIff True (ConvertFits conf s) (Converts conf r s) (storageConvert conf r) := by
  obtain ⟨b, hb, hholds⟩ := Buf.strcat_eq (Buf.holds_zero (n := 255)) conf.datadir_nul
    (by simpa using conf.datadir_lt)
  rw [storageConvert, hb, ok_bind, Buf.strrchr_eq h, ok_bind, lastIdx_slash]
  cases hs : splitLast s with
  | none => exact Ends.always (ends_ok (.inl ⟨hs, rfl⟩)) (by simp [ConvertFits, hs])
  | some p =>
    rw [(splitLast_eq_some hs).1] at h
    have hfits : ConvertFits conf s ↔ p.1.all isDirChar = false ∧
        conf.datadir.length + (digitDirs [] p.1 ++ slash :: p.2).length < 256 := by
      simp only [ConvertFits, hs, Option.mem_some_iff, forall_eq']
    rw [hfits]
    refine (backLoop_iff h).bind fun last hlast => ?_
    rw [hlast.str, ok_bind]
    refine (Buf.strcat_iff hholds hlast.notMem).bind_ends fun b₁ hfull => ?_
    have hlen := hfull.lt
    rw [length_append] at hlen
    obtain ⟨ret, hret, hretText⟩ := Buf.snprintf_text r.retfile hlast.notMem (by omega)
    obtain ⟨f₁, hf₁, -⟩ := @Buf.clear_eq 256 r.filename 256 (Nat.le_refl _)
    obtain ⟨f₂, hf₂, hname⟩ := Buf.snprintf_text f₁ hfull.notMem hfull.lt
    obtain ⟨f₃, hf₃, htrim⟩ := trimSep_eq hname
    simp only [hret, hf₁, hfull.str, hf₂, hf₃, ok_bind]
    exact ends_ok (.inr ⟨p, f₃, ret, hs, rfl, htrim, hretText⟩)

/-- Only directories of digits are in front of the name, as in those that the storage makes: the
    scan goes on in front of the record. -/
theorem storageConvert_digits {dir name : Path} (h : r.filename.Holds 0 (dir ++ slash :: name))
    (hname : slash ∉ name) (hdir : ∀ c ∈ dir, isDirChar c = true) :
    ¬ Within (storageConvert conf r) := by
  intro hw
  obtain ⟨hstop, -⟩ := (storageConvert_iff h).within.mp hw _ (splitLast_append dir hname)
  rw [all_eq_true.mpr hdir] at hstop
  cases hstop

end Convert

/-! ## 4. Names that the storage makes -/

theorem nul_storageDirs (d1 d2 : UInt32) : 0 ∉ storageDirs d1 d2 := fun h =>
  absurd (isDirChar_storageDirs 0 h) (by decide)

theorem nul_realfile (e : NameEnv) : 0 ∉ realfile e.now e.selfIp e.picIndex := by
  simp only [realfile, mem_append, mem_cons, not_or]
  refine ⟨nul_decimalInt _, by decide, nul_decimal _, by decide, fun h => ?_⟩
  exact absurd (decimalPad_digit h) (by decide)

theorem nul_base64 (d : List UInt8) : 0 ∉ base64 d := by
  have hall : ∀ a : Fin 64, base64Char a ≠ 0 := by decide +kernel
  rw [base64_eq_groups]
  intro h
  obtain ⟨k, hk, he⟩ := mem_map.mp h
  exact hall ⟨k, groups_lt d k hk⟩ he

/-- The Base64 part of a name. -/
def stamp (e : NameEnv) : Path := base64 (realfile e.now e.selfIp e.picIndex)

theorem stamp_length (e : NameEnv) : (stamp e).length ≤ 50 :=
  base64_realfile_length ⟨e.now, e.d1, e.d2, [], e.now_lt⟩ e.selfIp e.pic_lt

theorem realfile_length (e : NameEnv) : (realfile e.now e.selfIp e.picIndex).length ≤ 50 := by
  have h := stamp_length e
  rw [stamp, base64, length_map, length_range] at h
  omega

theorem makeStamp_eq (e : NameEnv) : ∃ b, makeStamp e = .ok b ∧ b.Holds 0 (stamp e) := by
  have hreal := realfile_length e
  have hstamp := stamp_length e
  obtain ⟨b₁, hb₁, htext⟩ := Buf.snprintf_text (Buf.zero 256) (nul_realfile e) (by omega)
  obtain ⟨b, hb, hholds⟩ := @Buf.write_text 256 (stamp e) (Buf.zero 256) (nul_base64 _) (by omega)
  refine ⟨b, ?_, hholds⟩
  rw [makeStamp, hb₁]
  simp only [ok_bind, htext.str]
  exact hb

section Names

variable {e : NameEnv} {r : Record} {filename localfile : Buf 256} {s d : Path}

theorem fromDot_eq_drop (s : Path) : fromDot s = s.drop (s.idxOf dot) := by
  induction s with
  | nil => rfl
  | cons c s ih =>
    by_cases hc : c = dot
    · simp [fromDot, hc]
    rw [fromDot, dropWhile_cons_of_pos (by simpa using hc), idxOf_cons_ne _ hc,
      drop_succ_cons, ← ih]
    rfl

theorem addExtension_iff (h : filename.Holds 0 s) (hd : localfile.Holds 0 d) :
    EndsIff True (d.length + (fromDot s).length < 256) (fun b => b.Holds 0 (d ++ fromDot s))
      (addExtension filename localfile) := by
  rw [addExtension, Buf.strchr_eq h (by decide), ok_bind]
  by_cases hdot : dot ∈ s
  · have hfrom : filename.Holds (s.take (s.idxOf dot)).length (fromDot s) := by
      apply Buf.Holds.drop
      rw [fromDot_eq_drop, take_append_drop]
      exact h
    have hidx := idxOf_lt_length_of_mem hdot
    rw [length_take, Nat.min_eq_left (Nat.le_of_lt hidx)] at hfrom
    simp only [if_pos hdot, Nat.zero_add, hfrom.str, ok_bind]
    exact Buf.strcat_iff hd hfrom.notMem
  · have hnil : fromDot s = [] := by
      rw [fromDot_eq_drop, idxOf_eq_length hdot, drop_length]
    rw [if_neg hdot, hnil, append_nil]
    exact Ends.always (ends_ok hd) hd.lt

theorem addExtension_unterminated (h : ¬ filename.Terminated) :
    addExtension filename localfile = .error .outside := by
  by_cases hdot : dot ∈ filename.bytes
  · obtain ⟨front, back, hsplit, hfront⟩ := eq_append_cons_of_mem hdot
    rw [Buf.Terminated, hsplit, mem_append, not_or] at h
    have hstr : filename.str front.length = .error .outside := by
      cases hs : filename.str front.length with
      | error _ => rfl
      | ok t =>
        obtain ⟨tail, htail, -⟩ := Buf.str_eq_ok.mp hs
        rw [hsplit, drop_left] at htail
        exact absurd (htail ▸ by simp) h.2
    rw [addExtension, Buf.strchr, drop_zero, hsplit, cchr_found h.1 hfront]
    simp only [Except.map, Option.map_some, ok_bind, Nat.zero_add, hstr, error_bind]
  · rw [addExtension, Buf.strchr, drop_zero, cchr_unterminated h hdot]
    rfl

theorem getLocalFilename_iff (hadd : r.type = TASK_ADDFILE) (h : r.filename.Holds 0 s) :
    EndsIff True ((stamp e).length + (fromDot s).length < 256)
      (fun r' => r'.filename.Holds 0
        ((storageDirs e.d1 e.d2 ++ slash :: (stamp e ++ fromDot s)).take 255))
      (getLocalFilename e r) := by
  obtain ⟨b, hb, hstamp⟩ := makeStamp_eq e
  rw [getLocalFilename, if_neg (not_not.mpr hadd), hb, ok_bind]
  refine (addExtension_iff h hstamp).bind_ends fun b₁ hname => ?_
  have h0 : 0 ∉ storageDirs e.d1 e.d2 ++ slash :: (stamp e ++ fromDot s) := by
    rw [mem_append, mem_cons, not_or, not_or]
    exact ⟨nul_storageDirs _ _, by decide, hname.notMem⟩
  obtain ⟨f₁, hf₁, -⟩ := @Buf.clear_eq 256 r.filename 256 (Nat.le_refl _)
  obtain ⟨f, hf, hholds⟩ := Buf.snprintf_take f₁ h0 (by decide)
  simp only [hf₁, ok_bind, hname.str, hf]
  exact ends_ok hholds

theorem cutAt_ok (h : filename.Holds 0 s) : ∃ f, cutAt filename (basenameCut s) = .ok f := by
  have hlt := h.lt
  unfold basenameCut
  simp only
  split
  · rename_i hcut
    obtain ⟨f, hf, -⟩ := @Buf.set_eq 256 filename _ 0 (Nat.lt_trans hcut.2 hlt)
    exact ⟨f, hf⟩
  · exact ⟨filename, rfl⟩

theorem nul_basename (h : 0 ∉ s) : 0 ∉ basename s := by
  have htrim : 0 ∉ (s.reverse.dropWhile (· == slash)).reverse := by
    intro h0
    rw [mem_reverse] at h0
    exact h (mem_reverse.mp ((dropWhile_sublist _).subset h0))
  unfold basename
  simp only
  split
  · decide
  split
  · decide
  split
  · exact htrim
  rename_i dir name hsplit
  intro h0
  rw [(splitLast_eq_some hsplit).1] at htrim
  exact htrim (mem_append_right _ (mem_cons_of_mem _ h0))

theorem getLocalBname_ends (h : r.filename.Holds 0 s) : Ends (getLocalBname e r) fun r' =>
    r'.filename.Holds 0 (storageDirs e.d1 e.d2 ++ slash :: (basename s).take 127) := by
  have h0 := nul_basename h.notMem
  have hdirs := storageDirs_length e.d1 e.d2
  obtain ⟨f, hf⟩ := cutAt_ok h
  obtain ⟨b, hb, hname⟩ := Buf.snprintf_take (Buf.zero 128) h0 (by decide)
  have hnul : 0 ∉ storageDirs e.d1 e.d2 ++ slash :: (basename s).take 127 := by
    rw [mem_append, mem_cons, not_or, not_or]
    exact ⟨nul_storageDirs _ _, by decide, hname.notMem⟩
  have hshort : (storageDirs e.d1 e.d2 ++ slash :: (basename s).take 127).length < 256 := by
    rw [length_append, length_cons, length_take]
    omega
  obtain ⟨f₁, hf₁, hfull⟩ := Buf.snprintf_text f hnul hshort
  obtain ⟨f₂, hf₂, hend, -⟩ := hfull.cut (Nat.le_refl _)
  rw [take_length] at hend
  rw [Nat.zero_add] at hf₂
  rw [getLocalBname, h.str, ok_bind, hf, ok_bind, hb, ok_bind]
  simp only [hname.str, ok_bind, hf₁, hf₂]
  exact ends_ok hend

end Names

/-! ## 5. Temporary files and deletions -/

section Files

variable {conf : PathConf} {e : FsEnv} {r : Record} {s file tmp : Path} {gIndex : Nat}

theorem nul_getTmpstr (e : FsEnv) (gIndex : Nat) : 0 ∉ Pfs.getTmpstr e gIndex := by
  simp only [Pfs.getTmpstr, cons_append, mem_cons, mem_append, not_or]
  exact ⟨by decide, nul_decimal _, by decide, nul_decimalInt _⟩

theorem gIndex_natAbs (gIndex : Nat) : (Int.bmod gIndex (2 ^ 32)).natAbs < 10 ^ 10 := by
  have hlo := @Int.le_bmod gIndex (2 ^ 32) (by decide)
  have hhi := @Int.bmod_lt gIndex (2 ^ 32) (by decide)
  have hmod : (Int.bmod gIndex (2 ^ 32)).natAbs ≤ 2 ^ 31 := by
    omega
  exact Nat.lt_of_le_of_lt hmod (by decide)

theorem getTmpstr_length (h : (decimal e.strtime).length < 16) (gIndex : Nat) :
    (Pfs.getTmpstr e gIndex).length ≤ 28 := by
  have hidx : (decimalInt (Int.bmod gIndex (2 ^ 32))).length ≤ 11 :=
    decimalInt_length_le (gIndex_natAbs gIndex) (by decide)
  unfold Pfs.getTmpstr
  generalize decimalInt (Int.bmod gIndex (2 ^ 32)) = index at hidx ⊢
  rw [cons_append, length_cons, length_append, length_cons]
  omega

theorem getTmpstr_iff (gIndex : Nat) : EndsIff True ((decimal e.strtime).length < 16)
    (fun b => b.Holds 0 (Pfs.getTmpstr e gIndex)) (getTmpstr e gIndex) := by
  refine (Buf.write_iff (Buf.zero 16) (nul_decimal e.strtime)).bind_ends fun t htime => ?_
  have hlen := getTmpstr_length htime.lt gIndex
  obtain ⟨b, hb, htext⟩ := Buf.snprintf_text (Buf.zero 32) (nul_getTmpstr e gIndex) (by omega)
  rw [Pfs.getTmpstr] at hb
  rw [htime.str, ok_bind, hb]
  exact ends_ok htext

theorem makeDirs_ok {filename : Buf 256} {d name : Path}
    (h : filename.Holds 0 (d ++ slash :: name)) :
    ∃ f res, filename.set d.length 0 = .ok f ∧ makeDirs e f = .ok res := by
  have hlt := h.lt
  rw [length_append, length_cons] at hlt
  obtain ⟨f, hf, hbytes⟩ := @Buf.set_eq 256 filename d.length 0 (by omega)
  obtain ⟨tail, htail⟩ := h.tail
  have hcut : f.bytes = d ++ 0 :: (name ++ 0 :: tail) := by
    rw [hbytes, htail]
    simp
  obtain ⟨dir, hdir⟩ := @Buf.exists_holds_from 256 f 0 (by rw [drop_zero, hcut]; simp)
  -- the end of the whole name is still behind the first character
  obtain ⟨rest, hrest⟩ := @Buf.exists_holds_from 256 f 1 (by
    have hassoc : f.bytes = (d ++ [0]) ++ (name ++ 0 :: tail) := by
      rw [hcut]
      simp
    rw [hassoc, drop_append_of_le_length (by simp)]
    simp)
  refine ⟨f, ?_⟩
  rw [makeDirs, hdir.str, ok_bind]
  by_cases hacc : e.access dir = true
  · exact ⟨_, hf, by rw [if_pos hacc]⟩
  have hrlt := hrest.lt_size
  obtain ⟨res, hres⟩ := createLoop_ok e 256 1 rest f hrest (by omega)
  exact ⟨res, hf, by rw [if_neg hacc, hres]⟩

theorem openTmp_ends (ht : r.tmpfile.Holds 0 tmp) (hf : r.filename.Holds 0 file) :
    Ends (openTmp e r) fun _ => True := by
  rw [openTmp, ht.str, ok_bind]
  by_cases hopen : (e.openTmp.isSome || !e.enoent) = true
  · rw [if_pos hopen]
    exact ends_ok trivial
  rw [if_neg hopen, Buf.strrchr_eq hf, ok_bind, lastIdx_slash]
  cases hs : splitLast file with
  | none => exact ends_ok trivial
  | some p =>
    rw [(splitLast_eq_some hs).1] at hf
    have hlt := hf.lt
    rw [length_append, length_cons] at hlt
    obtain ⟨f, ⟨made, f₁⟩, hset, hmade⟩ := @makeDirs_ok e r.filename p.1 p.2 hf
    obtain ⟨f₂, hf₂, -⟩ := @Buf.set_eq 256 f₁ p.1.length slash (by omega)
    simp only [Option.map_some, hset, ok_bind, hmade, hf₂]
    cases made with
    | false => exact ends_ok trivial
    | true => exact ends_ok trivial

/-- The temporary name fits behind the converted one. -/
def TmpFits (e : FsEnv) (gIndex : Nat) (file : Path) : Prop :=
  (decimal e.strtime).length < 16 ∧
    (file ++ dot :: Pfs.getTmpstr e gIndex ++ pfsSuffix).length < 256

instance (e : FsEnv) (gIndex : Nat) (file : Path) : Decidable (TmpFits e gIndex file) :=
  inferInstanceAs (Decidable (_ ∧ _))

theorem makeTmpfile_iff {filename : Buf 256} (h : filename.Holds 0 file) (tmpfile : Buf 256) :
    EndsIff True (TmpFits e gIndex file)
      (fun b => b.Holds 0 (file ++ [dot] ++ Pfs.getTmpstr e gIndex ++ pfsSuffix))
      (makeTmpfile e gIndex filename tmpfile) := by
  obtain ⟨b₁, hb₁, -⟩ := @Buf.clear_eq 256 tmpfile 256 (Nat.le_refl _)
  obtain ⟨b₂, hb₂, h₂⟩ := Buf.snprintf_text b₁ h.notMem h.lt
  rw [makeTmpfile, hb₁, ok_bind, h.str, ok_bind, hb₂, ok_bind]
  -- the last of the texts decides
  have hfits : TmpFits e gIndex file ↔ file.length + 1 < 256 ∧ (decimal e.strtime).length < 16 ∧
      (file ++ [dot]).length + (Pfs.getTmpstr e gIndex).length < 256 ∧
      (file ++ [dot] ++ Pfs.getTmpstr e gIndex).length + pfsSuffix.length < 256 := by
    simp only [TmpFits, length_append, length_cons, length_nil]
    omega
  rw [hfits]
  refine (Buf.strcat_iff h₂ (by decide : 0 ∉ [dot])).bind fun b₃ h₃ =>
    (getTmpstr_iff gIndex).bind fun t ht => ?_
  rw [ht.str, ok_bind]
  exact (Buf.strcat_iff h₃ (nul_getTmpstr e gIndex)).bind fun b₄ h₄ =>
    Buf.strcat_iff h₄ (by decide)

theorem onConverted_within {k : Record → Except Oob (LocalRet × Record)} {P : Path → Prop}
    (h : r.filename.Holds 0 s) (hk : ∀ file filename retfile, filename.Holds 0 file →
      (Within (k { r with filename := filename, retfile := retfile }) ↔ P file)) :
    Within (onConverted conf r k) ↔ ConvertFits conf s ∧ ∀ file ∈ converted conf s, P file := by
  rw [onConverted, within_bind]
  constructor
  · rintro ⟨x, hx, hw⟩
    obtain ⟨hfit, ⟨hs, -⟩ | ⟨p, f, ret, hs, rfl, hfile, -⟩⟩ :=
      (storageConvert_iff h).of_ok trivial hx
    · exact ⟨hfit, by simp [converted, hs]⟩
    · refine ⟨hfit, fun file hf => ?_⟩
      rw [converted, hs] at hf
      cases hf
      exact (hk _ f ret hfile).mp hw
  · rintro ⟨hfit, hP⟩
    obtain ⟨x, hx, ⟨-, rfl⟩ | ⟨p, f, ret, hs, rfl, hfile, -⟩⟩ := (storageConvert_iff h).ends hfit
    · exact ⟨_, hx, _, rfl⟩
    · exact ⟨_, hx, (hk _ f ret hfile).mpr (hP _ (by rw [converted, hs]; rfl))⟩

theorem openTmpLocalfile4Write_within (h : r.filename.Holds 0 s) :
    Within (openTmpLocalfile4Write conf e gIndex r) ↔
      ConvertFits conf s ∧ ∀ file ∈ converted conf s, TmpFits e gIndex file :=
  onConverted_within h fun _ _ _ hholds =>
    ((makeTmpfile_iff hholds r.tmpfile).bind_ends fun _ hb => openTmp_ends hb hholds).within

theorem addToDelFile_iff (h : r.filename.Holds 0 file) :
    EndsIff True (conf.deldir.length + 9 < 256) (fun _ => True) (addToDelFile conf r) := by
  have h0 : 0 ∉ conf.deldir ++ ascii "/del_list" := by
    rw [mem_append, not_or]
    exact ⟨conf.deldir_nul, by decide⟩
  obtain ⟨t, ht, -⟩ := Buf.snprintf_take (Buf.zero 10) (nul_decimalInt r.mtime) (by decide)
  obtain ⟨f, hf, -⟩ := Buf.snprintf_text (Buf.zero 256) h.notMem h.lt
  refine EndsIff.congr ((Buf.write_iff (Buf.zero 256) h0).bind_ends fun b _ => ?_) ?_
  · rw [ht, ok_bind, h.str, ok_bind, hf]
    exact ends_ok trivial
  · rw [length_append, show (ascii "/del_list").length = 9 by decide]

theorem deleteLocalfile_within (h : r.filename.Holds 0 s) : Within (deleteLocalfile conf e r) ↔
    ConvertFits conf s ∧
      ∀ file ∈ converted conf s, e.rename = true → conf.deldir.length + 9 < 256 := by
  refine onConverted_within (P := fun _ => e.rename = true → conf.deldir.length + 9 < 256) h
    fun file filename retfile hholds => ?_
  have h0 : 0 ∉ file ++ rmSuffix := by
    rw [mem_append, not_or]
    exact ⟨hholds.notMem, by decide⟩
  obtain ⟨rm, hrm, hrmText⟩ := Buf.snprintf_take (Buf.zero 256) h0 (by decide)
  obtain ⟨args, hargs, -⟩ := Buf.snprintf_text (Buf.zero 256) hrmText.notMem hrmText.lt
  simp only [hholds.str, ok_bind, hrm, hrmText.str]
  cases hren : e.rename with
  | false => exact ⟨fun _ h => (nomatch h), fun _ => ⟨_, rfl⟩⟩
  | true =>
    rw [if_neg (by simp), forall_prop_of_true rfl]
    refine ((addToDelFile_iff hholds).bind_ends (R := fun _ => True) fun _ _ => ?_).within
    rw [hargs]
    exact ends_ok trivial

end Files

/-! ## 6. The texts -/

section Texts

variable {conf : PathConf} {r : Record} {s : Path} {e : NameEnv}

/-- A name that fits is converted as in `Paths`, whatever is in front of the record. -/
theorem storageConvert_text (h : r.filename.Holds 0 s) (hfit : ConvertFits conf s) (pre : Path) :
    (Pfs.storageConvert pre conf.datadir s = .ok none ∧ storageConvert conf r = .ok (.dirE, r)) ∨
      ∃ ret file filename retfile,
        Pfs.storageConvert pre conf.datadir s = .ok (some (ret, file)) ∧
        storageConvert conf r = .ok (.ok, { r with filename := filename, retfile := retfile }) ∧
        filename.Holds 0 file ∧ retfile.Holds 0 ret := by
  unfold Pfs.storageConvert
  obtain ⟨x, hx, ⟨hs, rfl⟩ | ⟨p, filename, retfile, hs, rfl, hfile, hret⟩⟩ :=
    (storageConvert_iff h).ends hfit
  · rw [hs]
    exact .inl ⟨rfl, hx⟩
  · obtain ⟨hdir, hlen⟩ := hfit p hs
    refine .inr ⟨_, _, filename, retfile, ?_, hx, hfile, hret⟩
    simp only [hs, digitDirs_of_stop hdir pre]
    rw [if_neg (Nat.not_le.mpr hlen), take_of_length_le (by omega)]

theorem getLocalFilename_convert {r' : Record} (hadd : r.type = TASK_ADDFILE)
    (hs : r.filename.Holds 0 s) (hext : slash ∉ fromDot s) (h : getLocalFilename e r = .ok r') :
    ¬ Within (storageConvert conf r') := by
  obtain ⟨hlen, hholds⟩ := (getLocalFilename_iff hadd hs).of_ok trivial h
  have hdirs := storageDirs_length e.d1 e.d2
  have hstamp : slash ∉ stamp e := base64_notMem_slash realfile_char
  obtain ⟨k, hk⟩ : ∃ k, 255 = (storageDirs e.d1 e.d2).length + (k + 1) :=
    ⟨254 - (storageDirs e.d1 e.d2).length, by omega⟩
  rw [hk, take_length_add_append, take_succ_cons] at hholds
  refine storageConvert_digits hholds (fun hc => ?_) isDirChar_storageDirs
  obtain hc | hc := mem_append.mp (mem_of_mem_take hc)
  · exact hstamp hc
  · exact hext hc

end Texts

/-! ## 7. All of them -/

/-- A call of one of the six functions on a record, with what else it depends on. -/
inductive PathCall where
  | trimSep
  | storageConvert
  | openTmpLocalfile4Write (e : FsEnv) (gIndex : Nat)
  | deleteLocalfile (e : FsEnv)
  | getLocalFilename (e : NameEnv)
  | getLocalBname (e : NameEnv)

/-- The call; `trim_sep` is called for the file name and '/'. -/
def PathCall.run (conf : PathConf) (r : Record) : PathCall → Except Oob Unit
  | .trimSep => (Bytes.trimSep r.filename slash).map fun _ => ()
  | .storageConvert => (Bytes.storageConvert conf r).map fun _ => ()
  | .openTmpLocalfile4Write e gIndex =>
    (Bytes.openTmpLocalfile4Write conf e gIndex r).map fun _ => ()
  | .deleteLocalfile e => (Bytes.deleteLocalfile conf e r).map fun _ => ()
  | .getLocalFilename e => (Bytes.getLocalFilename e r).map fun _ => ()
  | .getLocalBname e => (Bytes.getLocalBname e r).map fun _ => ()

/-- **What the record has to meet.** The file name is terminated; to be converted it has something
    in front of its last component that ends the backward scan, and fits behind `datadir`, with the
    suffix of a temporary file where one is made; the extension that is kept fits behind the
    Base64 part. -/
def PathCall.Safe (conf : PathConf) (s : Path) (type : UInt8) : PathCall → Prop
  | .trimSep => True
  | .storageConvert => ConvertFits conf s
  | .openTmpLocalfile4Write e gIndex =>
    ConvertFits conf s ∧ ∀ file ∈ converted conf s, TmpFits e gIndex file
  | .deleteLocalfile e =>
    ConvertFits conf s ∧
      ∀ file ∈ converted conf s, e.rename = true → conf.deldir.length + 9 < 256
  | .getLocalFilename e =>
    type = TASK_ADDFILE → (stamp e).length + (fromDot s).length < 256
  | .getLocalBname _ => True

/-- Nothing is read of the record for another type than TASK_ADDFILE. -/
def PathCall.reads (type : UInt8) : PathCall → Bool
  | .getLocalFilename _ => type == TASK_ADDFILE
  | _ => true

section Calls

variable {conf : PathConf} {r : Record} {c : PathCall} (hreads : c.reads r.type = true)

include hreads

theorem PathCall.run_within {s : Path} (h : r.filename.Holds 0 s) :
    Within (c.run conf r) ↔ c.Safe conf s r.type := by
  cases c with
  | trimSep =>
    obtain ⟨b, hb, -⟩ := trimSep_eq h
    exact iff_of_true (within_map.mpr ⟨b, hb⟩) trivial
  | storageConvert => exact within_map.trans (storageConvert_iff h).within
  | openTmpLocalfile4Write e gIndex => exact within_map.trans (openTmpLocalfile4Write_within h)
  | deleteLocalfile e => exact within_map.trans (deleteLocalfile_within h)
  | getLocalFilename e =>
    have hadd : r.type = TASK_ADDFILE := by simpa [reads] using hreads
    rw [run, within_map, (getLocalFilename_iff hadd h).within, Safe, forall_prop_of_true hadd]
  | getLocalBname e =>
    obtain ⟨r', hr', -⟩ := @getLocalBname_ends e r s h
    exact iff_of_true (within_map.mpr ⟨r', hr'⟩) trivial

theorem PathCall.run_unterminated (h : ¬ r.filename.Terminated) : ¬ Within (c.run conf r) := by
  have hstr := Buf.str_unterminated h
  have hconvert : Bytes.storageConvert conf r = .error .outside := by
    obtain ⟨b, hb, -⟩ := Buf.strcat_eq (Buf.holds_zero (n := 255)) conf.datadir_nul
      (by simpa using conf.datadir_lt)
    rw [Bytes.storageConvert, hb, ok_bind, Buf.strrchr, hstr]
    rfl
  cases c with
  | trimSep =>
    rw [run, within_map, Bytes.trimSep, hstr]
    exact not_within_error _
  | storageConvert =>
    rw [run, within_map, hconvert]
    exact not_within_error _
  | openTmpLocalfile4Write e gIndex =>
    rw [run, within_map, Bytes.openTmpLocalfile4Write, onConverted, hconvert]
    exact not_within_error _
  | deleteLocalfile e =>
    rw [run, within_map, Bytes.deleteLocalfile, onConverted, hconvert]
    exact not_within_error _
  | getLocalFilename e =>
    obtain ⟨b, hb, -⟩ := makeStamp_eq e
    have hadd : r.type = TASK_ADDFILE := by simpa [reads] using hreads
    rw [run, within_map, Bytes.getLocalFilename, if_neg (not_not.mpr hadd), hb, ok_bind,
      addExtension_unterminated h]
    exact not_within_error _
  | getLocalBname e =>
    rw [run, within_map, Bytes.getLocalBname, hstr]
    exact not_within_error _

end Calls

/-- **A call stays within the fields and arrays it addresses exactly if** it reads nothing of the
    record, or the file name is terminated and meets the condition of the call. -/
theorem pathCall_within (conf : PathConf) (r : Record) (c : PathCall) :
    Within (c.run conf r) ↔
      (c.reads r.type = true → ∃ s, r.filename.Holds 0 s ∧ c.Safe conf s r.type) := by
  by_cases hreads : c.reads r.type = true
  · rw [forall_prop_of_true hreads]
    by_cases ht : r.filename.Terminated
    · obtain ⟨s, hs⟩ := Buf.exists_holds.mpr ht
      rw [PathCall.run_within hreads hs]
      refine ⟨fun hsafe => ⟨s, hs, hsafe⟩, ?_⟩
      rintro ⟨s', hs', hsafe⟩
      exact hs.unique hs' ▸ hsafe
    · refine iff_of_false (PathCall.run_unterminated hreads ht) ?_
      rintro ⟨s, hs, -⟩
      exact ht (Buf.exists_holds.mp ⟨s, hs⟩)
  · refine iff_of_true ?_ fun h => absurd h hreads
    cases c with
    | getLocalFilename e =>
      have hother : r.type ≠ TASK_ADDFILE := by simpa [PathCall.reads] using hreads
      exact within_map.mpr ⟨r, if_pos hother⟩
    | _ => exact absurd rfl hreads

/-- datadir is "/data". -/
def plainConf : PathConf :=
  ⟨ascii "/data", ascii "/diska/pfs/path/delfile/", by decide, by decide, by decide⟩

def plainName : NameEnv := ⟨1300000000, 9, 0, 1, 2, by decide, by decide⟩

def recordOf (s : Path) (h : s.length < 256) : Record :=
  ⟨Buf.ofText 256 s h, Buf.zero 256, Buf.zero 256, 0, TASK_ADDFILE⟩

/-- "a/1/" and 230 more characters. -/
def longName : Path := ascii "a/1/" ++ List.replicate 230 97

theorem longName_lt : longName.length < 256 := by decide +kernel

/-- A record without any terminator in its file name. -/
def fullRecord : Record :=
  ⟨⟨List.replicate 256 97, length_replicate⟩, Buf.zero 256, Buf.zero 256, 0, TASK_ADDFILE⟩

theorem fullRecord_unterminated : ¬ fullRecord.filename.Terminated := by
  rw [Buf.Terminated, fullRecord, mem_replicate]
  decide

theorem pathCall_within_plain :
    Within (PathCall.run plainConf (recordOf (ascii "a/1/2/x.jpg") (by decide))
      (.openTmpLocalfile4Write smallFs 0)) ∧
    Within (PathCall.run plainConf (recordOf (ascii "a/1/2/x.jpg") (by decide))
      (.getLocalFilename plainName)) := by
  have hholds := @Buf.holds_ofText 256 (ascii "a/1/2/x.jpg") (by decide) (by decide)
  constructor
  · exact (pathCall_within plainConf _ (.openTmpLocalfile4Write smallFs 0)).mpr fun _ =>
      ⟨_, hholds, by decide, by decide⟩
  · exact (pathCall_within plainConf _ (.getLocalFilename plainName)).mpr fun _ =>
      ⟨_, hholds, fun _ => by decide +kernel⟩

theorem storageConvert_text_plain : ∃ filename retfile,
    storageConvert plainConf (recordOf (ascii "a/1/2/x.jpg") (by decide)) = .ok (.ok,
      { recordOf (ascii "a/1/2/x.jpg") (by decide) with
        filename := filename, retfile := retfile }) := by
  have hholds := @Buf.holds_ofText 256 (ascii "a/1/2/x.jpg") (by decide) (by decide)
  obtain ⟨hnone, -⟩ | ⟨-, -, filename, retfile, -, hrun, -⟩ :=
    @storageConvert_text plainConf (recordOf (ascii "a/1/2/x.jpg") (by decide)) _ hholds (by decide)
      []
  · exact absurd hnone (by decide)
  · exact ⟨filename, retfile, hrun⟩

/-- **Names that leave the arrays.** The name of a stored file, "/1/2/x", is scanned beyond its
    first character, and so is the name that the storage gives to "x.jpg"; a long name overruns
    `tmpfile`; a file name without a terminator is read beyond its end. -/
theorem paths_outside :
    ¬ Within (PathCall.run plainConf (recordOf (ascii "/1/2/x") (by decide)) .storageConvert) ∧
    ¬ Within (PathCall.run plainConf (recordOf (ascii "/1/2/x") (by decide))
      (.deleteLocalfile smallFs)) ∧
    (∃ r, getLocalFilename plainName (recordOf (ascii "x.jpg") (by decide)) = .ok r ∧
      ¬ Within (PathCall.run plainConf r .storageConvert)) ∧
    ¬ Within (PathCall.run plainConf (recordOf longName longName_lt)
      (.openTmpLocalfile4Write smallFs 0)) ∧
    ¬ Within (PathCall.run plainConf fullRecord .trimSep) ∧
    ¬ Within (PathCall.run plainConf fullRecord (.getLocalFilename plainName)) ∧
    ¬ Within (PathCall.run plainConf fullRecord (.getLocalBname plainName)) := by
  have hstored := @Buf.holds_ofText 256 (ascii "/1/2/x") (by decide) (by decide)
  refine ⟨fun h => ?_, fun h => ?_, ?_, fun h => ?_, ?_, ?_, ?_⟩
  · exact absurd ((PathCall.run_within rfl hstored).mp h) (by decide : ¬ ConvertFits _ _)
  · exact absurd ((PathCall.run_within rfl hstored).mp h).1 (by decide)
  · have hnew := @Buf.holds_ofText 256 (ascii "x.jpg") (by decide) (by decide)
    obtain ⟨r, hr, -⟩ := (@getLocalFilename_iff plainName (recordOf (ascii "x.jpg") (by decide)) _
      rfl hnew).ends (by decide +kernel)
    exact ⟨r, hr, fun h => getLocalFilename_convert rfl hnew (by decide) hr (within_map.mp h)⟩
  · have hlong := Buf.holds_ofText longName_lt (by decide +kernel)
    exact absurd ((PathCall.run_within rfl hlong).mp h).2 (by decide +kernel)
  · exact PathCall.run_unterminated rfl fullRecord_unterminated
  · exact PathCall.run_unterminated rfl fullRecord_unterminated
  · exact PathCall.run_unterminated rfl fullRecord_unterminated

end Pfs.Bytes
