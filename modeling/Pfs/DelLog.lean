/-
  The log of deleted files and its replay (network/pfs_del_file.c, `do_sync_del_req` of
  network/S/pfs_sig_task.c).

  Every deletion is appended as a record of 268 bytes: its time as text in `dtime[10]`, a blank, the
  name in `file[256]`, a newline. A storage that has been away asks for the deletions from a time
  on; the records from the first with that time are sent as tasks, up to the first that is younger
  than the clock.

  Main results: `deletions_split`, `replay_exact`, `replay_misses`.
-/
import Pfs.Arming
import Pfs.DirServe
import Pfs.Lib.Records
import Pfs.StoredName

namespace Pfs

open Lib Client List

namespace DelLog

/-! ## 1. The log -/

/-- `sizeof(t_pfs_del_file)` -/
def DEL_SIZE : Nat := 268

/-- The record of a deletion: `dtime`, `idle`, `file` and `line`. -/
def delFile (filename : Path) (mtime : Int) : List UInt8 :=
  charField 10 ((decimalInt mtime).take 9) ++ ascii " " ++ charField 256 (filename.take 255) ++ [10]

/-- `add_2_del_file`; the log is opened with O_APPEND. -/
def add2DelFile (log : List UInt8) (base : TaskBase) : List UInt8 :=
  log ++ delFile base.filename base.mtime

/-- The loop of `find_last_index`: a read that comes short leaves the rest of the record before. -/
def findLoop (log : List UInt8) (last : Int) : Nat → Nat → Int → List UInt8 → Option (Int × Path)
  | 0, _, _, _ => none
  | fuel + 1, pos, index, delfile =>
    let got := (log.drop pos).take DEL_SIZE
    if got = [] then none
    else
      let delfile := copyAt delfile 0 got
      let index := toInt32 (index + 1)
      if atol (cText delfile) = last then some (index, (cText (delfile.drop 11)).take 255)
      else findLoop log last fuel (pos + got.length) index delfile

/-- `find_last_index`: the index, and the name it leaves in `base`. -/
def findLastIndex (log : List UInt8) (last : Int) : Option (Int × Path) :=
  findLoop log last (log.length + 1) 0 (-1) (List.replicate DEL_SIZE 0)

/-- `get_from_del_file`: whether there is a record with this index that is due. The name in `base`
    is not touched. -/
def getFromDelFile (log : List UInt8) (next cur : Int) : Bool :=
  if toInt32 (log.length / DEL_SIZE : Nat) ≤ next then false
  else
    -- a negative position is refused by `lseek`, which stays at 0
    let got := (log.drop (DEL_SIZE * next).toNat).take DEL_SIZE
    if got = [] then false
    else !decide (cur < atol (cText (copyAt (List.replicate DEL_SIZE 0) 0 got)))

def delTask (filename : Path) : TaskBase :=
  { TaskBase.zero with type := TASK_DELFILE, filename := filename }

/-- The loop of `do_sync_del_req`. -/
def sendLoop (log : List UInt8) (cur : Int) : Nat → Int → Path → List TaskBase
  | 0, _, _ => []
  | fuel + 1, next, filename =>
    let next := toInt32 (next + 1)
    delTask filename :: if getFromDelFile log next cur then sendLoop log cur fuel next [] else []

/-- The tasks that `do_sync_del_req` sends. -/
def deletions (log : List UInt8) (cur starttime : Int) : List TaskBase :=
  match findLastIndex log starttime with
  | none => []
  | some (next, filename) => if next = -1 then
    [] else sendLoop log cur (log.length + 1) next filename

def newtaskReq (base : TaskBase) : List UInt8 :=
  createSigMsg NEWTASK_REQ TASK_SYNC_DIR base.bytes BASE_SIZE

/-- `do_sync_del_req`: the messages it queues. -/
def doSyncDelReq (log : List UInt8) (cur : Int) (b : List UInt8) : List (List UInt8) :=
  (deletions log cur (readSyncTask b).starttime).map newtaskReq ++
    [createSigMsg SYNC_DEL_RSP TASK_SYNC_DIR b SYNC_SIZE]

/-! ## 2. What it is for -/

/-- A deletion: what `add_2_del_file` finds in the task. -/
structure Deletion where
  filename : Path
  mtime : Int
  filename_nul : 0 ∉ filename
  filename_fits : filename.length < 256

def Deletion.task (d : Deletion) : TaskBase :=
  { TaskBase.zero with filename := d.filename, mtime := d.mtime }

def logOf (ds : List Deletion) : List UInt8 := (ds.map Deletion.task).foldl add2DelFile []

/-- The deletions a request is for: from the first with its time up to the first that is younger
    than the clock. -/
def due (ds : List Deletion) (now starttime : Int) : List Deletion :=
  (ds.dropWhile fun d => d.mtime != starttime).takeWhile fun d => decide (d.mtime ≤ now)

def replayed (ds : List Deletion) (now : Int) (b : List UInt8) : List (List UInt8) :=
  ((due ds now (readSyncTask b).starttime).map fun d => newtaskReq (delTask d.filename)) ++
    [createSigMsg SYNC_DEL_RSP TASK_SYNC_DIR b SYNC_SIZE]

/-! ## 3. The log as records -/

def kept (t : Int) : Int := atol ((decimalInt t).take 9)

def Deletion.entry (d : Deletion) : List UInt8 := delFile d.filename d.mtime

theorem Deletion.length_entry (d : Deletion) : d.entry.length = DEL_SIZE := by
  simp only [entry, delFile, length_append, length_charField, length_singleton]
  rfl

theorem logOf_eq (ds : List Deletion) : logOf ds = (ds.map Deletion.entry).flatten := by
  have hfold : ∀ log : List UInt8,
      (ds.map Deletion.task).foldl add2DelFile log = log ++ (ds.map Deletion.entry).flatten := by
    induction ds with
    | nil => intro log; simp
    | cons d ds ih =>
      intro log
      rw [map_cons, foldl_cons, ih, map_cons, flatten_cons, ← append_assoc]
      rfl
  exact hfold []

theorem entries_length (ds : List Deletion) : ∀ r ∈ ds.map Deletion.entry, r.length = DEL_SIZE := by
  intro r hr
  obtain ⟨d, -, rfl⟩ := mem_map.mp hr
  exact d.length_entry

theorem length_logOf (ds : List Deletion) : (logOf ds).length = DEL_SIZE * ds.length := by
  rw [logOf_eq, length_records (entries_length ds), length_map]

theorem read_logOf (ds : List Deletion) (i : Nat) :
    ((logOf ds).drop (DEL_SIZE * i)).take DEL_SIZE = (ds[i]?.map Deletion.entry).getD [] := by
  have h := recordAt_flatten (entries_length ds) i
  rwa [recordAt, ← logOf_eq, getElem?_map] at h

theorem Deletion.atol_entry (d : Deletion) : atol (cText d.entry) = kept d.mtime := by
  have h0 : 0 ∉ (decimalInt d.mtime).take 9 := fun h => nul_decimalInt _ (mem_of_mem_take h)
  have hlen : ((decimalInt d.mtime).take 9).length < 10 := by
    rw [length_take]
    omega
  rw [Deletion.entry, delFile, append_assoc, append_assoc, cText_charField_append _ h0 hlen, kept]

theorem Deletion.name_entry (d : Deletion) : (cText (d.entry.drop 11)).take 255 = d.filename := by
  have hfits : d.filename.take 255 = d.filename :=
    take_of_length_le (Nat.le_of_lt_succ d.filename_fits)
  have hdrop : d.entry.drop 11 = charField 256 d.filename ++ [10] := by
    have hhead : (charField 10 ((decimalInt d.mtime).take 9) ++ ascii " ").length = 11 := by
      rw [length_append, length_charField]
      rfl
    rw [Deletion.entry, delFile, hfits, append_assoc, ← hhead, drop_left]
  rw [hdrop, cText_charField_append _ d.filename_nul d.filename_fits, hfits]

theorem Deletion.copyAt_entry (d : Deletion) {delfile : List UInt8}
    (hlen : delfile.length = DEL_SIZE) : copyAt delfile 0 d.entry = d.entry := by
  rw [copyAt, take_zero, nil_append, Nat.zero_add, d.length_entry, ← hlen, drop_length, append_nil]

theorem Deletion.entry_ne_nil (d : Deletion) : d.entry ≠ [] := by
  intro h
  have hlen := d.length_entry
  rw [h] at hlen
  cases hlen

/-! ## 4. The search -/

section Search

variable {ds : List Deletion} {last cur : Int} {fuel i : Nat} {index : Int} {delfile : List UInt8}

theorem findLoop_succ (hi : i < ds.length) (hlen : delfile.length = DEL_SIZE) :
    findLoop (logOf ds) last (fuel + 1) (DEL_SIZE * i) index delfile =
      if kept ds[i].mtime = last then some (toInt32 (index + 1), ds[i].filename)
      else findLoop (logOf ds) last fuel (DEL_SIZE * (i + 1)) (toInt32 (index + 1))
        ds[i].entry := by
  rw [findLoop, read_logOf, getElem?_eq_getElem hi]
  simp only [Option.map_some, Option.getD_some, if_neg ds[i].entry_ne_nil, ds[i].copyAt_entry hlen,
    ds[i].atol_entry, ds[i].name_entry, ds[i].length_entry, Nat.mul_succ]

theorem findLoop_none (h : ∀ d ∈ ds.drop i, kept d.mtime ≠ last)
    (hlen : delfile.length = DEL_SIZE) :
    findLoop (logOf ds) last fuel (DEL_SIZE * i) index delfile = none := by
  induction fuel generalizing i index delfile with
  | zero => rfl
  | succ fuel ih =>
    by_cases hi : i < ds.length
    · rw [drop_eq_getElem_cons hi] at h
      rw [findLoop_succ hi hlen, if_neg (h _ mem_cons_self)]
      exact ih (fun d hd => h d (mem_cons_of_mem _ hd)) ds[i].length_entry
    · rw [findLoop, read_logOf, getElem?_eq_none (Nat.le_of_not_lt hi)]
      rfl

theorem findLoop_some {k : Nat} {d : Deletion} (hd : ds[i + k]? = some d)
    (hpre : ∀ j, i ≤ j → j < i + k → ∀ e, ds[j]? = some e → kept e.mtime ≠ last)
    (hat : kept d.mtime = last) (hbound : ds.length < 2 ^ 31) (hfuel : k < fuel)
    (hlen : delfile.length = DEL_SIZE) :
    findLoop (logOf ds) last fuel (DEL_SIZE * i) (i - 1) delfile =
      some (((i + k : Nat) : Int), d.filename) := by
  induction fuel generalizing i k delfile with
  | zero => omega
  | succ fuel ih =>
    have hik : i + k < ds.length := (List.getElem?_eq_some_iff.mp hd).1
    have hi : i < ds.length := by omega
    have hidx : toInt32 ((i : Int) - 1 + 1) = i := by
      rw [Int.sub_add_cancel, toInt32_of_lt (by omega) (by omega)]
    rw [findLoop_succ hi hlen, hidx]
    cases k with
    | zero =>
      rw [Nat.add_zero, getElem?_eq_getElem hi, Option.some.injEq] at hd
      rw [hd, if_pos hat, Nat.add_zero]
    | succ k =>
      have hne := hpre i (Nat.le_refl i) (by omega) ds[i] (getElem?_eq_getElem hi)
      have hstep : i + (k + 1) = i + 1 + k := by omega
      rw [hstep] at hd hpre ⊢
      rw [if_neg hne]
      have hnext := ih hd (fun j hj hlt => hpre j (by omega) hlt) (by omega) ds[i].length_entry
      rwa [Int.natCast_succ, Int.add_sub_cancel] at hnext

theorem getFromDelFile_eq (hbound : ds.length < 2 ^ 31) :
    getFromDelFile (logOf ds) i cur = (ds[i]?).any fun d => decide (kept d.mtime ≤ cur) := by
  have hcount : (logOf ds).length / DEL_SIZE = ds.length := by
    rw [length_logOf, Nat.mul_div_cancel_left _ (by decide)]
  have hpos : ((DEL_SIZE : Int) * (i : Int)).toNat = DEL_SIZE * i := rfl
  rw [getFromDelFile, hcount, toInt32_of_lt (by omega) (by omega), hpos, read_logOf]
  by_cases hi : i < ds.length
  · rw [if_neg (by omega), getElem?_eq_getElem hi]
    simp only [Option.map_some, Option.getD_some, if_neg ds[i].entry_ne_nil,
      ds[i].copyAt_entry length_replicate, ds[i].atol_entry, Option.any_some]
    rw [← decide_not]
    exact decide_eq_decide.mpr Int.not_lt
  · rw [if_pos (by omega), getElem?_eq_none (Nat.le_of_not_lt hi)]
    rfl

/-- The loop of `do_sync_del_req`: one task for the record found, and one without a name for every
    record behind it that is due. -/
theorem sendLoop_eq (hbound : ds.length < 2 ^ 31) (hi : i < ds.length)
    (hfuel : ds.length < fuel + i + 1) (filename : Path) :
    sendLoop (logOf ds) cur fuel i filename = delTask filename ::
      ((ds.drop (i + 1)).takeWhile fun d => decide (kept d.mtime ≤ cur)).map fun _ => delTask
        [] := by
  induction fuel generalizing i filename with
  | zero => omega
  | succ fuel ih =>
    have hnext : toInt32 ((i : Int) + 1) = ((i + 1 : Nat) : Int) := by
      rw [toInt32_of_lt (by omega) (by omega)]
      rfl
    rw [sendLoop, hnext, getFromDelFile_eq hbound]
    refine congrArg (List.cons (delTask filename)) ?_
    by_cases hi1 : i + 1 < ds.length
    · rw [getElem?_eq_getElem hi1, drop_eq_getElem_cons hi1, takeWhile_cons, Option.any_some]
      split
      · exact ih hi1 (by omega) []
      · rfl
    · rw [getElem?_eq_none (Nat.le_of_not_lt hi1), drop_eq_nil_of_le (Nat.le_of_not_lt hi1)]
      rfl

end Search

section Replay

variable {ds pre rest : List Deletion} {d : Deletion} {cur starttime : Int}

theorem deletions_none (h : ∀ d ∈ ds, kept d.mtime ≠ starttime) :
    deletions (logOf ds) cur starttime = [] := by
  have hfind := @findLoop_none ds starttime ((logOf ds).length + 1) 0 (-1) _ h
    (length_replicate (n := DEL_SIZE) (a := 0))
  rw [Nat.mul_zero] at hfind
  rw [deletions, findLastIndex, hfind]

/-- **The replay**: a task with the name of the first record that has the time, and one without a
    name for every record behind it that is due. -/
theorem deletions_split (hsplit : ds = pre ++ d :: rest)
    (hpre : ∀ e ∈ pre, kept e.mtime ≠ starttime) (hd : kept d.mtime = starttime)
    (hbound : ds.length < 2 ^ 31) :
    deletions (logOf ds) cur starttime = delTask d.filename ::
      (rest.takeWhile fun d => decide (kept d.mtime ≤ cur)).map fun _ => delTask [] := by
  have hlen : ds.length = pre.length + (rest.length + 1) := by
    rw [hsplit, length_append, length_cons]
  have hlog : ds.length ≤ (logOf ds).length := by
    rw [length_logOf]
    exact Nat.le_mul_of_pos_left _ (by decide)
  have hat : ds[0 + pre.length]? = some d := by
    rw [Nat.zero_add, hsplit, getElem?_append_right (Nat.le_refl _), Nat.sub_self]
    rfl
  have hbefore : ∀ j, 0 ≤ j → j < 0 + pre.length → ∀ e, ds[j]? = some e →
      kept e.mtime ≠ starttime := by
    intro j _ hj e he
    rw [hsplit, getElem?_append_left (by omega)] at he
    exact hpre e (mem_of_getElem? he)
  have hfind := @findLoop_some ds starttime ((logOf ds).length + 1) 0 _ _ _ hat hbefore hd hbound
    (by omega) (length_replicate (n := DEL_SIZE) (a := 0))
  have hidx : ((0 : Nat) : Int) - 1 = -1 := rfl
  rw [Nat.mul_zero, hidx, Nat.zero_add] at hfind
  have hrest : ds.drop (pre.length + 1) = rest := by
    rw [hsplit, ← singleton_append, ← append_assoc, ← length_singleton (a := d),
      ← length_append, drop_left]
  rw [deletions, findLastIndex, hfind]
  simp only
  rw [if_neg (by omega), sendLoop_eq hbound (by omega) (by omega), hrest]

theorem due_split (h : ∃ d ∈ ds, d.mtime = starttime) : ∃ pre d rest, ds = pre ++ d :: rest ∧
    (∀ e ∈ pre, e.mtime ≠ starttime) ∧ d.mtime = starttime ∧
    ∀ now, due ds now starttime = (d :: rest).takeWhile fun d => decide (d.mtime ≤ now) := by
  cases hdrop : ds.dropWhile fun d => d.mtime != starttime with
  | nil =>
    obtain ⟨d, hd, hat⟩ := h
    exact absurd hat (bne_iff_ne.mp (dropWhile_eq_nil_iff.mp hdrop d hd))
  | cons d rest =>
    have hne : ds.dropWhile (fun d => d.mtime != starttime) ≠ [] := by
      rw [hdrop]
      exact cons_ne_nil _ _
    have hhead := head_dropWhile_not _ hne
    simp only [hdrop, head_cons, bne_eq_false_iff_eq] at hhead
    refine ⟨ds.takeWhile fun d => d.mtime != starttime, d, rest, ?_, ?_, hhead, ?_⟩
    · rw [← hdrop, takeWhile_append_dropWhile]
    · intro e he
      have hp := mem_takeWhile_imp he
      exact bne_iff_ne.mp hp
    · intro now
      rw [due, hdrop]

end Replay

/-! ## 5. Times -/

variable {t : Int}

theorem kept_of_nonneg (h0 : 0 ≤ t) :
    kept t = min (2 ^ 63 - 1) (readDecimal ((decimal t.toNat).take 9) : Int) := by
  have hdec : decimalInt t = decimal t.toNat := by
    rw [decimalInt, if_neg (Int.not_lt.mpr h0)]
    congr 1
    omega
  have hne : (decimal t.toNat).take 9 ≠ [] := by
    rw [Ne, take_eq_nil_iff, not_or]
    exact ⟨by decide, decimal_ne_nil _⟩
  rw [kept, hdec, atol_digits hne fun c hc => decimal_digit (mem_of_mem_take hc)]

theorem kept_nineDigits (h0 : 0 ≤ t) (h9 : t < 10 ^ 9) : kept t = t := by
  have hlen : (decimal t.toNat).length ≤ 9 := decimal_length_le (by omega) (by decide)
  rw [kept_of_nonneg h0, take_of_length_le hlen, readDecimal_decimal]
  omega

theorem kept_tenDigits (h9 : 10 ^ 9 ≤ t) (h10 : t < 10 ^ 10) : kept t = t / 10 := by
  have hle : (decimal t.toNat).length ≤ 10 := decimal_length_le (by omega) (by decide)
  have hlt : 9 < (decimal t.toNat).length := lt_decimal_length (by omega)
  rw [kept_of_nonneg (by omega), readDecimal_dropLast (by omega)]
  omega

/-- The seconds of an epoch time of today. -/
def TenDigits (t : Int) : Prop := 10 ^ 9 ≤ t ∧ t < 10 ^ 10

/-- With times of ten digits nothing is ever found. -/
theorem replay_tenDigits {ds : List Deletion} (hds : ∀ d ∈ ds, TenDigits d.mtime) (now : Int)
    {b : List UInt8} (hb : TenDigits (readSyncTask b).starttime) :
    doSyncDelReq (logOf ds) now b = [createSigMsg SYNC_DEL_RSP TASK_SYNC_DIR b SYNC_SIZE] := by
  have hnone : ∀ d ∈ ds, kept d.mtime ≠ (readSyncTask b).starttime := by
    intro d hd
    obtain ⟨h9, h10⟩ := hds d hd
    rw [kept_tenDigits h9 h10]
    have := hb.1
    omega
  rw [doSyncDelReq, deletions_none hnone]
  rfl

theorem replay_tenDigits_iff {ds : List Deletion} (hds : ∀ d ∈ ds, TenDigits d.mtime) {now : Int}
    {b : List UInt8} (hlogged : ∃ d ∈ ds, d.mtime = (readSyncTask b).starttime) :
    doSyncDelReq (logOf ds) now b = replayed ds now b ↔ now < (readSyncTask b).starttime := by
  obtain ⟨pre, d, rest, hsplit, -, hat, hdue⟩ := due_split hlogged
  have hd : d ∈ ds := hsplit ▸ mem_append_right _ mem_cons_self
  have hnil : due ds now (readSyncTask b).starttime = [] ↔ now < (readSyncTask b).starttime := by
    rw [hdue, takeWhile_cons, hat]
    split
    · exact ⟨fun h => absurd h (cons_ne_nil _ _), fun h => by simp_all; omega⟩
    · exact ⟨fun _ => by simp_all, fun _ => rfl⟩
  rw [replay_tenDigits hds now (hat ▸ hds d hd), replayed, ← hnil]
  constructor
  · intro h
    have hlen := congrArg List.length h
    rw [length_append, length_map, length_singleton] at hlen
    exact length_eq_zero_iff.mp (by omega)
  · intro h
    rw [h]
    rfl

theorem replay_nineDigits {ds : List Deletion} (hds : ∀ d ∈ ds, 0 ≤ d.mtime ∧ d.mtime < 10 ^ 9)
    (hbound : ds.length < 2 ^ 31) {now : Int} {b : List UInt8}
    (hlogged : ∃ d ∈ ds, d.mtime = (readSyncTask b).starttime)
    (hone : (due ds now (readSyncTask b).starttime).length = 1) :
    doSyncDelReq (logOf ds) now b = replayed ds now b := by
  have hkept : ∀ d ∈ ds, kept d.mtime = d.mtime := fun d hd =>
    kept_nineDigits (hds d hd).1 (hds d hd).2
  obtain ⟨pre, d, rest, hsplit, hpre, hat, hdue⟩ := due_split hlogged
  have hmem : ∀ e ∈ d :: rest, e ∈ ds := fun e he => hsplit ▸ mem_append_right _ he
  have hfirst : ∀ e ∈ pre, kept e.mtime ≠ (readSyncTask b).starttime := by
    intro e he
    rw [hkept e (hsplit ▸ mem_append_left _ he)]
    exact hpre e he
  rw [hdue, takeWhile_cons] at hone
  split at hone
  case isFalse => cases hone
  rename_i hnow
  have hnext : rest.takeWhile (fun d => decide (d.mtime ≤ now)) = [] :=
    length_eq_zero_iff.mp (Nat.succ.inj hone)
  have hkeptNext : rest.takeWhile (fun d => decide (kept d.mtime ≤ now)) = [] := by
    cases rest with
    | nil => rfl
    | cons e rest =>
      rw [takeWhile_cons, hkept e (hmem e (by simp))]
      rw [takeWhile_cons] at hnext
      split at hnext
      · cases hnext
      · rename_i hlate
        rw [if_neg hlate]
  rw [doSyncDelReq, deletions_split hsplit hfirst (hat ▸ hkept d (hmem d mem_cons_self)) hbound,
    hkeptNext, replayed, hdue, takeWhile_cons, if_pos hnow, hnext]
  rfl

/-- **The log is replayed as it was written**, with times of ten digits exactly if nothing is due
    yet; and with times of nine digits, if one deletion is due. -/
theorem replay_exact (ds : List Deletion) (now : Int) (b : List UInt8)
    (hlogged : ∃ d ∈ ds, d.mtime = (readSyncTask b).starttime) :
    ((∀ d ∈ ds, TenDigits d.mtime) →
      (doSyncDelReq (logOf ds) now b = replayed ds now b ↔ now < (readSyncTask b).starttime)) ∧
    ((∀ d ∈ ds, 0 ≤ d.mtime ∧ d.mtime < 10 ^ 9) → ds.length < 2 ^ 31 →
      (due ds now (readSyncTask b).starttime).length = 1 →
      doSyncDelReq (logOf ds) now b = replayed ds now b) :=
  ⟨fun hds => replay_tenDigits_iff hds hlogged,
    fun hds hbound hone => replay_nineDigits hds hbound hlogged hone⟩

def delReq (starttime : Int) : List UInt8 :=
  List.replicate 8 0 ++ intField 8 starttime ++ List.replicate 16 0

def someDeletion (mtime : Int) : Deletion := ⟨ascii "/diska/1/2/a", mtime, by decide, by decide⟩

/-- A request for a deletion of the future, and one for the only deletion of a log with short
    times. -/
theorem replay_exact_both :
    doSyncDelReq (logOf [someDeletion 1400000000]) 1300000000 (delReq 1400000000) =
        replayed [someDeletion 1400000000] 1300000000 (delReq 1400000000) ∧
      doSyncDelReq (logOf [someDeletion 900000000]) 1300000000 (delReq 900000000) =
        replayed [someDeletion 900000000] 1300000000 (delReq 900000000) := by
  refine ⟨((replay_exact _ _ _ ⟨_, mem_singleton_self _, by decide⟩).1 ?_).mpr (by decide),
    (replay_exact _ _ _ ⟨_, mem_singleton_self _, by decide⟩).2 ?_ (by decide) (by decide)⟩
  · intro d hd
    rw [mem_singleton.mp hd]
    exact ⟨by decide, by decide⟩
  · intro d hd
    rw [mem_singleton.mp hd]
    exact ⟨by decide, by decide⟩

/-- A file was deleted, the request is for the time of that, and the answer is that there is
    nothing. -/
theorem replay_misses :
    TenDigits (someDeletion 1400000000).mtime ∧
      (someDeletion 1400000000).mtime = (readSyncTask (delReq 1400000000)).starttime ∧
      doSyncDelReq (logOf [someDeletion 1400000000]) 1500000000 (delReq 1400000000) =
        [createSigMsg SYNC_DEL_RSP TASK_SYNC_DIR (delReq 1400000000) SYNC_SIZE] ∧
      replayed [someDeletion 1400000000] 1500000000 (delReq 1400000000) =
        [newtaskReq (delTask (ascii "/diska/1/2/a")),
          createSigMsg SYNC_DEL_RSP TASK_SYNC_DIR (delReq 1400000000) SYNC_SIZE] := by
  have hten : TenDigits 1400000000 := ⟨by decide, by decide⟩
  have hstart : (readSyncTask (delReq 1400000000)).starttime = 1400000000 := by decide
  have hone : ∀ d ∈ [someDeletion 1400000000], TenDigits d.mtime := by
    intro d hd
    rw [mem_singleton.mp hd]
    exact hten
  refine ⟨hten, hstart.symm, replay_tenDigits hone _ (by rw [hstart]; exact hten), ?_⟩
  rw [replayed, hstart]
  rfl

end DelLog

end Pfs
