/-
  The plan of the directory sync: `init_sync_list` of network/S/pfs_sig_base.c, and the file
  of time stamps it reads (network/pfs_time_stamp.c).

  The directories of the storage are the pairs of `init_storage_dir` (`dirPairs`); the file has a
  stamp of 8 bytes for each of them, in this order. `init_sync_list` goes through the pairs with
  DIR1 for both bounds.

  Main results: `getTimeStamp_setTimeStamp`, `plan_covers`, `plan_wrong`.
-/
import Pfs.Lib.Records
import Pfs.DirServe
import Pfs.Directories
import Pfs.LoadReport

namespace Pfs

open Lib List

/-! ## 1. Time stamps -/

/-- `sizeof(t_time_stamp)`. -/
def STAMP_SIZE : Nat := 8

/-- `ftruncate` -/
def ftruncate (f : List UInt8) (n : Nat) : List UInt8 := f.take n ++ List.replicate (n - f.length) 0

/-- The file that `init_pfs_time_stamp` leaves. -/
def initPfsTimeStamp (f : List UInt8) (dir1 dir2 : Nat) : List UInt8 :=
  ftruncate f (STAMP_SIZE * dir1 * dir2 % 2 ^ 64)

/-- `(dir1 * DIR2 + dir2) * sizeof(t_time_stamp)`: an `int` times a `size_t`. -/
def stampPos (dir2 : Nat) (d : Nat × Nat) : Nat :=
  toSize (toInt32 (d.1 * dir2 + d.2 : Nat)) * STAMP_SIZE % 2 ^ 64

/-- `write` at an offset. -/
def pwrite (f : List UInt8) (pos : Nat) (b : List UInt8) : List UInt8 :=
  ftruncate (f.take pos) pos ++ b ++ f.drop (pos + b.length)

/-- `set_time_stamp_by_int`: the offset is an `off_t`. -/
def setTimeStampByInt (f : List UInt8) (dir2 : Nat) (d : Nat × Nat) (tval : Int) :
    Int × List UInt8 :=
  let pos := toInt64 (stampPos dir2 d)
  if pos < 0 then (-1, f) else (0, pwrite f pos.toNat (intField STAMP_SIZE tval))

/-- The offset of `get_time_stamp_by_int` is an `int`. -/
def readPos (dir2 : Nat) (d : Nat × Nat) : Int := toInt32 (stampPos dir2 d)

/-- `get_time_stamp_by_int` -/
def getTimeStampByInt (f : List UInt8) (dir2 : Nat) (d : Nat × Nat) : Int :=
  if readPos dir2 d < 0 then -1
  else
    let b := (f.drop (readPos dir2 d).toNat).take STAMP_SIZE
    if b.length ≠ STAMP_SIZE then -1 else readInt STAMP_SIZE b

/-! ## 2. The plan -/

/-- `get_dir_lasttime`: `none` when `opendir` fails. -/
def getDirLasttime (w : FileFilter) (now : Int) : Option (List DirEntry) → Int
  | none => now
  | some ds => ds.foldl (fun maxtime d =>
      if d.name.head? = some dot then maxtime
      else if w.checkFileFilter d.name then
        match d.stat with
        | none => maxtime
        | some f => if maxtime ≤ f.ctime then f.ctime else maxtime
      else maxtime) 0

/-- What `init_sync_list` finds: the times, the directories, and whether `malloc` succeeds. -/
structure PlanEnv where
  cur : Int
  taskTimeout : Int
  filter : FileFilter
  now : Nat × Nat → Int
  dir : Nat × Nat → Option (List DirEntry)
  malloc : Nat × Nat → Bool

/-- The start of a sync, from the stamp of the directory. -/
def PlanEnv.start (e : PlanEnv) (d : Nat × Nat) (stamp : Int) : Int :=
  let last := toInt64 (stamp - e.taskTimeout)
  if last ≤ 0 then getDirLasttime e.filter (e.now d) (e.dir d) else last

/-- A node of `sync_list`; its type is TASK_ADDFILE. -/
def PlanEnv.task (e : PlanEnv) (d : Nat × Nat) (stamp : Int) : SyncTask :=
  ⟨d.1, d.2, e.start d stamp, e.cur⟩

/-- The loops of `init_sync_list`, over the pairs they go through. -/
def initSyncLoop (e : PlanEnv) (f : List UInt8) (dir2 : Nat) :
    List (Nat × Nat) → Int × List SyncTask
  | [] => (0, [])
  | d :: ds =>
    if e.malloc d then
      let r := initSyncLoop e f dir2 ds
      (r.1, e.task d (getTimeStampByInt f dir2 d) :: r.2)
    else (-1, [])

/-- `init_sync_list`: both loops end at DIR1. -/
def initSyncList (e : PlanEnv) (f : List UInt8) (dir1 dir2 : Nat) : Int × List SyncTask :=
  initSyncLoop e f dir2 (dirPairs dir1 dir1)

def SyncTask.dir (t : SyncTask) : Int × Int := (t.d1, t.d2)

/-- A directory as the two `int`s of a task. -/
def asInts (d : Nat × Nat) : Int × Int := (d.1, d.2)

/-! ## 3. Slots -/

theorem length_ftruncate (f : List UInt8) (n : Nat) : (ftruncate f n).length = n := by
  rw [ftruncate, length_append, length_take, length_replicate]
  omega

theorem dirPairs_succ (dir1 dir2 : Nat) :
    dirPairs (dir1 + 1) dir2 = dirPairs dir1 dir2 ++
      (List.range dir2).map fun d2 => (dir1, d2) := by
  unfold dirPairs
  rw [range_succ, flatMap_append, flatMap_singleton]

theorem getElem?_dirPairs {dir1 dir2 : Nat} {d : Nat × Nat} (h1 : d.1 < dir1) (h2 : d.2 < dir2) :
    (dirPairs dir1 dir2)[d.1 * dir2 + d.2]? = some d := by
  induction dir1 with
  | zero => exact absurd h1 (Nat.not_lt_zero _)
  | succ n ih =>
    rw [dirPairs_succ]
    obtain hlt | heq := Nat.lt_succ_iff_lt_or_eq.mp h1
    · have hle : (d.1 + 1) * dir2 ≤ n * dir2 := Nat.mul_le_mul_right dir2 hlt
      rw [Nat.succ_mul] at hle
      rw [getElem?_append_left (by rw [length_dirPairs]; omega)]
      exact ih hlt
    · rw [getElem?_append_right (by rw [length_dirPairs, heq]; omega), length_dirPairs, heq,
        Nat.add_sub_cancel_left, getElem?_map, getElem?_range h2, ← heq]
      rfl

theorem index_of_dirPairs {dir1 dir2 k : Nat} {d : Nat × Nat}
    (h : (dirPairs dir1 dir2)[k]? = some d) :
    k = d.1 * dir2 + d.2 ∧ k < dir1 * dir2 := by
  obtain ⟨hk, -⟩ := List.getElem?_eq_some_iff.mp h
  obtain ⟨h1, h2⟩ := mem_dirPairs.mp (mem_of_getElem? h)
  refine ⟨?_, length_dirPairs dir1 dir2 ▸ hk⟩
  exact (getElem?_inj hk (nodup_dirPairs dir1 dir2)).mp (h.trans (getElem?_dirPairs h1 h2).symm)

section Slots

variable {dir2 : Nat} {d : Nat × Nat}

theorem stampPos_eq (h : STAMP_SIZE * (d.1 * dir2 + d.2) < 2 ^ 31) :
    stampPos dir2 d = STAMP_SIZE * (d.1 * dir2 + d.2) := by
  unfold STAMP_SIZE at h
  have hint : toInt32 (d.1 * dir2 + d.2 : Nat) = (d.1 * dir2 + d.2 : Nat) :=
    toInt32_of_lt (by omega) (by omega)
  rw [stampPos, hint, toSize_of_nonneg (by omega) (by omega), Int.toNat_natCast, STAMP_SIZE]
  omega

theorem readPos_eq (h : STAMP_SIZE * (d.1 * dir2 + d.2) < 2 ^ 31) :
    readPos dir2 d = (STAMP_SIZE * (d.1 * dir2 + d.2) : Nat) := by
  rw [readPos, stampPos_eq h]
  exact toInt32_of_lt (by omega) (by omega)

theorem getTimeStamp_record {f : List UInt8} (h : STAMP_SIZE * (d.1 * dir2 + d.2) < 2 ^ 31)
    (hf : STAMP_SIZE * (d.1 * dir2 + d.2) + STAMP_SIZE ≤ f.length) :
    getTimeStampByInt f dir2 d = readInt STAMP_SIZE (recordAt STAMP_SIZE f (d.1 * dir2 + d.2)) := by
  have hlen : ((f.drop (STAMP_SIZE * (d.1 * dir2 + d.2))).take STAMP_SIZE).length = STAMP_SIZE := by
    rw [length_take, length_drop]
    omega
  rw [getTimeStampByInt, readPos_eq h, if_neg (by omega)]
  simp only [Int.toNat_natCast, hlen, ne_eq, not_true_eq_false, if_false]
  rfl

theorem setTimeStamp_record {f : List UInt8} (tval : Int)
    (h : STAMP_SIZE * (d.1 * dir2 + d.2) < 2 ^ 31)
    (hf : STAMP_SIZE * (d.1 * dir2 + d.2) ≤ f.length) :
    setTimeStampByInt f dir2 d tval =
      (0, putRecord STAMP_SIZE f (d.1 * dir2 + d.2) (intField STAMP_SIZE tval)) := by
  have hpos : toInt64 (stampPos dir2 d) = (STAMP_SIZE * (d.1 * dir2 + d.2) : Nat) := by
    rw [stampPos_eq h]
    exact toInt64_of_lt (by omega) (by omega)
  have htake : ftruncate (f.take (STAMP_SIZE * (d.1 * dir2 + d.2)))
      (STAMP_SIZE * (d.1 * dir2 + d.2)) =
      f.take (STAMP_SIZE * (d.1 * dir2 + d.2)) := by
    rw [ftruncate, take_take, Nat.min_self, length_take_of_le hf, Nat.sub_self, replicate_zero,
      append_nil]
  rw [setTimeStampByInt, hpos]
  simp only [Int.toNat_natCast]
  rw [if_neg (by omega), pwrite, htake, intField_length, putRecord]

theorem foldr_bytes (b : List UInt8) : b.foldr (fun c x => (c.toNat : Int) + 256 * x) 0 =
    (b.foldr (fun c y => c.toNat + 256 * y) 0 : Nat) := by
  induction b with
  | nil => rfl
  | cons c b ih =>
    rw [foldr_cons, foldr_cons, ih]
    norm_cast

theorem intField_emod (n : Nat) (x : Int) : intField n x = intField n (x % 256 ^ n) := by
  unfold intField
  refine map_congr_left fun k hk => ?_
  obtain ⟨m, rfl⟩ : ∃ m, n = k + 1 + m := ⟨n - k - 1, by have := mem_range.mp hk; omega⟩
  -- what is cut off is a multiple of `256 ^ (k + 1)`, and does not reach byte `k`
  have hx : x = x % 256 ^ (k + 1 + m) + 256 ^ k * (256 * (256 ^ m * (x / 256 ^ (k + 1 + m)))) := by
    have h := Int.emod_add_mul_ediv x (256 ^ (k + 1 + m))
    rw [Int.pow_add 256 (k + 1) m, Int.pow_succ] at h ⊢
    rw [← Int.mul_assoc 256, ← Int.mul_assoc (256 ^ k), ← Int.mul_assoc (256 ^ k)]
    exact h.symm
  have hpos : (256 : Int) ^ k ≠ 0 := Int.ne_of_gt (Int.pow_pos (by decide))
  have hbyte : x / 256 ^ k % 256 = x % 256 ^ (k + 1 + m) / 256 ^ k % 256 := by
    conv_lhs => rw [hx, Int.add_mul_ediv_left _ _ hpos, Int.add_mul_emod_self_left]
  rw [hbyte]

theorem readInt_intField {n : Nat} {x : Int} (h0 : -(256 ^ n : Nat) ≤ 2 * x)
    (h1 : 2 * x < (256 ^ n : Nat)) :
    readInt n (intField n x) = x := by
  have hpow : ((256 ^ n : Nat) : Int) = 256 ^ n := by norm_cast
  have hpos : (0 : Int) < 256 ^ n := Int.pow_pos (by decide)
  obtain ⟨t, ht⟩ := Int.eq_ofNat_of_zero_le (Int.emod_nonneg x (Int.ne_of_gt hpos))
  have hlt : t < 256 ^ n := by
    have := Int.emod_lt_of_pos x hpos
    omega
  rw [readInt, take_of_length_le (Nat.le_of_eq (intField_length n x)), intField_emod, ht,
    foldr_bytes, foldr_intField, Nat.mod_eq_of_lt hlt, ← ht, ← hpow, Int.emod_bmod]
  exact Int.bmod_eq_of_le_mul_two (by omega) (by omega)

end Slots

section Stamps

variable {dir1 dir2 : Nat} {d : Nat × Nat} {f : List UInt8}

theorem slot_of_mem (hfits : STAMP_SIZE * (dir1 * dir2) ≤ 2 ^ 31)
    (hf : STAMP_SIZE * (dir1 * dir2) ≤ f.length) (hd : d ∈ dirPairs dir1 dir2) :
    STAMP_SIZE * (d.1 * dir2 + d.2) < 2 ^ 31 ∧
      STAMP_SIZE * (d.1 * dir2 + d.2) + STAMP_SIZE ≤ f.length := by
  obtain ⟨h1, h2⟩ := mem_dirPairs.mp hd
  obtain ⟨-, hlt⟩ := index_of_dirPairs (getElem?_dirPairs h1 h2)
  have hle : STAMP_SIZE * (d.1 * dir2 + d.2 + 1) ≤ STAMP_SIZE * (dir1 * dir2) :=
    Nat.mul_le_mul_left _ hlt
  rw [Nat.mul_succ] at hle
  have hsize : STAMP_SIZE = 8 := rfl
  omega

/-- **A stamp is read back**, and no other directory's stamp has changed. -/
theorem getTimeStamp_setTimeStamp (hfits : STAMP_SIZE * (dir1 * dir2) ≤ 2 ^ 31)
    (hf : STAMP_SIZE * (dir1 * dir2) ≤ f.length) (hd : d ∈ dirPairs dir1 dir2) {t : Int}
    (ht : -2 ^ 63 ≤ t ∧ t < 2 ^ 63) :
    getTimeStampByInt (setTimeStampByInt f dir2 d t).2 dir2 d = t ∧
      ∀ d' ∈ dirPairs dir1 dir2, d' ≠ d →
        getTimeStampByInt (setTimeStampByInt f dir2 d t).2 dir2 d' =
          getTimeStampByInt f dir2 d' := by
  have hlen : (intField STAMP_SIZE t).length = STAMP_SIZE := intField_length _ _
  obtain ⟨hpos, hend⟩ := slot_of_mem hfits hf hd
  rw [setTimeStamp_record _ hpos (by omega)]
  have hput := length_put (f := f) hlen hend
  constructor
  · rw [getTimeStamp_record hpos (hput.symm ▸ hend), recordAt_put hlen (by omega)]
    have hsize : 256 ^ STAMP_SIZE = 2 ^ 64 := rfl
    exact readInt_intField (by rw [hsize]; omega) (by rw [hsize]; omega)
  · intro d' hd' hne
    obtain ⟨hpos', hend'⟩ := slot_of_mem hfits hf hd'
    have hindex : d'.1 * dir2 + d'.2 ≠ d.1 * dir2 + d.2 := by
      intro heq
      obtain ⟨h1, h2⟩ := mem_dirPairs.mp hd
      obtain ⟨h1', h2'⟩ := mem_dirPairs.mp hd'
      have hget := getElem?_dirPairs h1' h2'
      rw [heq, getElem?_dirPairs h1 h2] at hget
      exact hne (Option.some.inj hget).symm
    rw [getTimeStamp_record hpos' (hput.symm ▸ hend'), getTimeStamp_record hpos' hend',
      recordAt_put_ne hlen (by omega) hindex]

end Stamps

/-! ## 4. The plan and the storage -/

section Plan

variable {e : PlanEnv} {f : List UInt8} {dir1 dir2 : Nat} {plan : List SyncTask}

theorem initSyncLoop_eq {ds : List (Nat × Nat)} (h : initSyncLoop e f dir2 ds = (0, plan)) :
    plan = ds.map fun d => e.task d (getTimeStampByInt f dir2 d) := by
  induction ds generalizing plan with
  | nil =>
    cases h
    rfl
  | cons d ds ih =>
    rw [initSyncLoop] at h
    split at h
    · obtain ⟨hret, rfl⟩ := Prod.mk.inj h
      rw [map_cons, ← ih (Prod.ext hret rfl)]
    · cases h

theorem initSyncList_eq (h : initSyncList e f dir1 dir2 = (0, plan)) :
    plan = (dirPairs dir1 dir1).map fun d => e.task d (getTimeStampByInt f dir2 d) :=
  initSyncLoop_eq h

theorem plan_dirs (h : initSyncList e f dir1 dir2 = (0, plan)) :
    plan.map SyncTask.dir = (dirPairs dir1 dir1).map asInts := by
  rw [initSyncList_eq h, map_map]
  rfl

/-- The plan has the directories of the storage only if the two numbers are the same. -/
theorem plan_dirs_iff (hpos : 0 < dir1) (h : initSyncList e f dir1 dir2 = (0, plan)) :
    (plan.map SyncTask.dir).Perm ((dirPairs dir1 dir2).map asInts) ↔ dir1 = dir2 := by
  constructor
  · intro hperm
    have hlen := hperm.length_eq
    rw [plan_dirs h, length_map, length_map, length_dirPairs, length_dirPairs] at hlen
    exact Nat.eq_of_mul_eq_mul_left hpos hlen
  · rintro rfl
    rw [plan_dirs h]

/-- The sync plan covers the storage: a task for each directory, in the order of `init_storage_dir`,
    and its start comes from the stamp at the directory's own place. -/
structure PlanCovers (e : PlanEnv) (f : List UInt8) (dir1 dir2 : Nat) (plan : List SyncTask) :
    Prop where
  dirs : plan.map SyncTask.dir = (dirPairs dir1 dir2).map asInts
  start : ∀ k d, (dirPairs dir1 dir2)[k]? = some d →
    plan[k]? = some (e.task d (readInt STAMP_SIZE (recordAt STAMP_SIZE f k)))
  slot : ∀ k d, (dirPairs dir1 dir2)[k]? = some d →
    readPos dir2 d = (STAMP_SIZE * k : Nat) ∧ STAMP_SIZE * k + STAMP_SIZE ≤ f.length

theorem stamps_fit {n : Nat} (hpos : 0 < n) (hc : PlanCovers e f n n plan) :
    STAMP_SIZE * (n * n) ≤ 2 ^ 31 := by
  -- the offset of the last directory is an `int`
  have hlast : (n - 1) * n + (n - 1) + 1 = n * n := by
    obtain ⟨m, rfl⟩ := Nat.exists_eq_add_one_of_ne_zero (Nat.ne_of_gt hpos)
    rw [Nat.add_sub_cancel, Nat.succ_mul]
    omega
  have hlt := Nat.sub_one_lt_of_lt hpos
  have hread : readPos n (n - 1, n - 1) = (STAMP_SIZE * ((n - 1) * n + (n - 1)) : Nat) :=
    (hc.slot _ _ (getElem?_dirPairs hlt hlt)).1
  have hint : readPos n (n - 1, n - 1) < 2 ^ 31 := toInt32_lt _
  have hsize : STAMP_SIZE = 8 := rfl
  rw [hsize] at hread ⊢
  omega

theorem covers_of_fits (file : List UInt8) (hsquare : dir1 = dir2)
    (hfits : STAMP_SIZE * (dir1 * dir2) ≤ 2 ^ 31)
    (h : initSyncList e (initPfsTimeStamp file dir1 dir2) dir1 dir2 = (0, plan)) :
    PlanCovers e (initPfsTimeStamp file dir1 dir2) dir1 dir2 plan := by
  have hlen : (initPfsTimeStamp file dir1 dir2).length = STAMP_SIZE * (dir1 * dir2) := by
    rw [initPfsTimeStamp, length_ftruncate, Nat.mul_assoc, Nat.mod_eq_of_lt (by omega)]
  subst hsquare
  have hplan := initSyncList_eq h
  refine ⟨plan_dirs h, fun k d hk => ?_, fun k d hk => ?_⟩
  · obtain ⟨rfl, -⟩ := index_of_dirPairs hk
    obtain ⟨hpos, hend⟩ := slot_of_mem hfits hlen.ge (mem_of_getElem? hk)
    rw [hplan, getElem?_map, hk, ← getTimeStamp_record hpos hend]
    rfl
  · obtain ⟨rfl, -⟩ := index_of_dirPairs hk
    obtain ⟨hpos, hend⟩ := slot_of_mem hfits hlen.ge (mem_of_getElem? hk)
    exact ⟨readPos_eq hpos, hend⟩

/-- **The plan covers exactly the store** if and only if there are no directories, or DIR1 = DIR2
    and the offsets of all stamps fit an `int`. -/
theorem plan_covers (file : List UInt8)
    (h : initSyncList e (initPfsTimeStamp file dir1 dir2) dir1 dir2 = (0, plan)) :
    PlanCovers e (initPfsTimeStamp file dir1 dir2) dir1 dir2 plan ↔
      dir1 = 0 ∨ dir1 = dir2 ∧ STAMP_SIZE * (dir1 * dir2) ≤ 2 ^ 31 := by
  constructor
  · intro hc
    refine or_iff_not_imp_left.mpr fun hne => ?_
    have hpos := Nat.pos_of_ne_zero hne
    obtain rfl := (plan_dirs_iff hpos h).mp (.of_eq hc.dirs)
    exact ⟨rfl, stamps_fit hpos hc⟩
  · rintro (rfl | ⟨hsquare, hfits⟩)
    · have hnil : dirPairs 0 dir2 = [] := rfl
      refine ⟨plan_dirs h, fun k d hk => ?_, fun k d hk => ?_⟩ <;>
        cases (hnil ▸ hk : ([] : List (Nat × Nat))[k]? = some d)
    · exact covers_of_fits file hsquare hfits h

end Plan

/-- A storage with a timeout of 10 seconds, without files. -/
def planEnv : PlanEnv where
  cur := 1000
  taskTimeout := 10
  filter := openFilter
  now := fun _ => 999
  dir := fun _ => some []
  malloc := fun _ => true

def stamps (ts : List Int) : List UInt8 := ts.flatMap (intField STAMP_SIZE)

theorem plan_covers_four : ∃ plan,
    initSyncList planEnv (initPfsTimeStamp (stamps [110, 210, 310, 410]) 2 2) 2 2 = (0, plan) ∧
    plan.map SyncTask.starttime = [100, 200, 300, 400] ∧
    PlanCovers planEnv (initPfsTimeStamp (stamps [110, 210, 310, 410]) 2 2) 2 2 plan := by
  exact ⟨_, rfl, by decide +kernel, (plan_covers _ rfl).mpr (.inr ⟨rfl, by decide⟩)⟩

/-- DIR1 = 2 and DIR2 = 1: there are tasks for (0, 1) and (1, 1), which are no directories; the
    first one reads the stamp of (1, 0), the other one behind the end of the file. DIR1 = 1 and DIR2
    = 2: there is no task for (0, 1). -/
theorem plan_wrong :
    (∃ plan, initSyncList planEnv (initPfsTimeStamp (stamps [110, 210]) 2 1) 2 1 = (0, plan) ∧
      dirPairs 2 1 = [(0, 0), (1, 0)] ∧
      plan = [⟨0, 0, 100, 1000⟩, ⟨0, 1, 200, 1000⟩, ⟨1, 0, 200, 1000⟩, ⟨1, 1, 0, 1000⟩] ∧
      readPos 1 (0, 1) = readPos 1 (1, 0) ∧
      ((initPfsTimeStamp (stamps [110, 210]) 2 1).length : Int) = readPos 1 (1, 1)) ∧
    ∃ plan, initSyncList planEnv (initPfsTimeStamp (stamps [110, 210]) 1 2) 1 2 = (0, plan) ∧
      dirPairs 1 2 = [(0, 0), (0, 1)] ∧ plan = [⟨0, 0, 100, 1000⟩] := by
  refine ⟨⟨_, rfl, by decide, by decide +kernel, by decide +kernel, by decide +kernel⟩,
    _, rfl, by decide, by decide +kernel⟩

end Pfs
