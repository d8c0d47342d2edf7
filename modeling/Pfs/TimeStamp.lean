/-
  The time stamp that a finished file leaves on its directory: `set_time_stamp` of
  network/pfs_time_stamp.c with `get_dir1_dir2` of network/pfs_init.c.

  The directory numbers are read from the path again, from the right, and taken modulo DIR1 and
  DIR2 with the sign of C; so an offset can be negative, which `lseek` refuses. A write behind the
  end makes the file longer, none makes it shorter.

  Main result: `finish_stamps_directory`.
-/
import Pfs.SyncPlan

namespace Pfs

open Lib

/-! ## 1. Directory numbers and offsets -/

/-- `get_dir1_dir2`: the path is copied into 256 bytes and cut at its last separators; `none` where
    it returns -1. -/
def getDir1Dir2 (dir1 dir2 : Nat) (pathsrc : Path) : Option (Int × Int) :=
  match splitLast (pathsrc.take 255) with
  | none => none
  | some (s, _) =>
    match splitLast s with
    | none => none
    | some (s', t) =>
      match splitLast s' with
      | none => none
      | some (_, t') => some ((Client.atoi t').tmod dir1, (Client.atoi t).tmod dir2)

/-- `set_time_stamp_by_int` for any two `int`s; a negative offset is an error of `lseek`. -/
def setTimeStampInt (f : List UInt8) (dir2 : Nat) (d1 d2 : Int) (tval : Int) : Int × List UInt8 :=
  let pos := toInt64 (toSize (toInt32 (d1 * dir2 + d2)) * STAMP_SIZE % 2 ^ 64 : Nat)
  if pos < 0 then (-1, f) else (0, pwrite f pos.toNat (intField STAMP_SIZE tval))

/-- `set_time_stamp` -/
def setTimeStamp (dir1 dir2 : Nat) (f : List UInt8) (task : TaskBase) : Int × List UInt8 :=
  match getDir1Dir2 dir1 dir2 task.filename with
  | none => (-1, f)
  | some (d1, d2) => setTimeStampInt f dir2 d1 d2 task.mtime

/-- Who writes to the file: a finished task, or the operator's command. -/
inductive StampAct where
  | task (task : TaskBase)
  | byInt (d1 d2 : Int) (tval : Int)

def stampAct (dir1 dir2 : Nat) (f : List UInt8) : StampAct → Int × List UInt8
  | .task task => setTimeStamp dir1 dir2 f task
  | .byInt d1 d2 tval => setTimeStampInt f dir2 d1 d2 tval

/-- The file as `init_pfs_time_stamp` leaves it, and after some writes. -/
def stamped (dir1 dir2 : Nat) (file : List UInt8) (acts : List StampAct) : List UInt8 :=
  acts.foldl (fun f a => (stampAct dir1 dir2 f a).2) (initPfsTimeStamp file dir1 dir2)

/-- `<datadir>/<d1>/<d2>/<basename>`. -/
def storedPath (datadir : Path) (d : Nat × Nat) (base : Path) : Path :=
  datadir ++ slash :: decimal d.1 ++ slash :: decimal d.2 ++ slash :: base

theorem setTimeStampInt_nat (f : List UInt8) (dir2 : Nat) (d : Nat × Nat) (tval : Int) :
    setTimeStampInt f dir2 d.1 d.2 tval = setTimeStampByInt f dir2 d tval := by
  unfold setTimeStampInt setTimeStampByInt stampPos
  rw [Int.natCast_add, Int.natCast_mul]

/-! ## 2. The path -/

theorem atoi_tmod {d dir : Nat} (hd : d < dir) (hdir : dir < 2 ^ 31) :
    (Client.atoi (decimal d)).tmod dir = d := by
  rw [Client.atoi_decimal (by omega), Int.tmod_eq_emod_of_nonneg (by omega)]
  exact Int.emod_eq_of_lt (by omega) (by omega)

theorem getDir1Dir2_storedPath {dir1 dir2 : Nat} {datadir base : Path} {d : Nat × Nat}
    (h1 : d.1 < dir1) (h2 : d.2 < dir2) (hdir1 : dir1 < 2 ^ 31) (hdir2 : dir2 < 2 ^ 31)
    (hbase : slash ∉ base) (hlen : (storedPath datadir d base).length < 256) :
    getDir1Dir2 dir1 dir2 (storedPath datadir d base) = some ((d.1 : Int), (d.2 : Int)) := by
  have hcopy : (storedPath datadir d base).take 255 = storedPath datadir d base :=
    List.take_of_length_le (by omega)
  have hname := splitLast_append (datadir ++ slash :: decimal d.1 ++ slash :: decimal d.2) hbase
  have hdir := splitLast_append (datadir ++ slash :: decimal d.1) (notMem_decimal d.2)
  have htop := splitLast_append datadir (notMem_decimal d.1)
  unfold getDir1Dir2
  rw [hcopy, storedPath, hname]
  simp only [hdir, htop, atoi_tmod h1 hdir1, atoi_tmod h2 hdir2]

/-! ## 3. The file -/

theorem length_pwrite (f : List UInt8) (pos : Nat) (b : List UInt8) :
    f.length ≤ (pwrite f pos b).length := by
  simp only [pwrite, List.length_append, length_ftruncate, List.length_drop]
  omega

theorem setTimeStampInt_length (f : List UInt8) (dir2 : Nat) (d1 d2 tval : Int) :
    f.length ≤ (setTimeStampInt f dir2 d1 d2 tval).2.length := by
  unfold setTimeStampInt
  generalize toInt64 _ = pos
  by_cases h : pos < 0
  · simp only [if_pos h]
    exact Nat.le_refl _
  · simp only [if_neg h]
    exact length_pwrite f _ _

theorem stampAct_length (dir1 dir2 : Nat) (f : List UInt8) (a : StampAct) :
    f.length ≤ (stampAct dir1 dir2 f a).2.length := by
  cases a with
  | task task =>
    rw [stampAct, setTimeStamp]
    cases getDir1Dir2 dir1 dir2 task.filename with
    | none => exact Nat.le_refl _
    | some d => exact setTimeStampInt_length f dir2 d.1 d.2 task.mtime
  | byInt d1 d2 tval => exact setTimeStampInt_length f dir2 d1 d2 tval

theorem stamped_length {dir1 dir2 : Nat} (hfits : dir1 * dir2 * 8 < 2 ^ 31) (file : List UInt8)
    (acts : List StampAct) : STAMP_SIZE * (dir1 * dir2) ≤ (stamped dir1 dir2 file acts).length := by
  have hinit : (initPfsTimeStamp file dir1 dir2).length = STAMP_SIZE * (dir1 * dir2) := by
    rw [initPfsTimeStamp, length_ftruncate, Nat.mul_assoc]
    refine Nat.mod_eq_of_lt ?_
    rw [STAMP_SIZE]
    omega
  rw [← hinit, stamped]
  generalize initPfsTimeStamp file dir1 dir2 = f
  induction acts generalizing f with
  | nil => exact Nat.le_refl _
  | cons a acts ih => exact Nat.le_trans (stampAct_length dir1 dir2 f a) (ih _)

/-- **Finishing a file stamps exactly its directory.** In every state of the file of time stamps,
    whatever it held when it was opened and whatever was written to it since: `set_time_stamp` on a
    path of the store sets the stamp of the path's directory to the task's time, and leaves that of
    every other directory as it was. -/
theorem finish_stamps_directory {dir1 dir2 : Nat} (hfits : dir1 * dir2 * 8 < 2 ^ 31)
    (file : List UInt8) (acts : List StampAct) {datadir base : Path} {d : Nat × Nat}
    (h1 : d.1 < dir1) (h2 : d.2 < dir2) (hbase : slash ∉ base) (task : TaskBase)
    (hname : task.filename = storedPath datadir d base) (hlen : task.filename.length < 256)
    (hmtime : -2 ^ 63 ≤ task.mtime ∧ task.mtime < 2 ^ 63) {f : List UInt8}
    (hf : f = stamped dir1 dir2 file acts) :
    (setTimeStamp dir1 dir2 f task).1 = 0 ∧
      getTimeStampByInt (setTimeStamp dir1 dir2 f task).2 dir2 d = task.mtime ∧
      ∀ e : Nat × Nat, e.1 < dir1 → e.2 < dir2 → e ≠ d →
        getTimeStampByInt (setTimeStamp dir1 dir2 f task).2 dir2 e =
          getTimeStampByInt f dir2 e := by
  have hstamps : STAMP_SIZE * (dir1 * dir2) ≤ 2 ^ 31 := by
    rw [STAMP_SIZE]
    omega
  have hroom : STAMP_SIZE * (dir1 * dir2) ≤ f.length := hf ▸ stamped_length hfits file acts
  have hdir1 : dir1 ≤ dir1 * dir2 := Nat.le_mul_of_pos_right dir1 (by omega)
  have hdir2 : dir2 ≤ dir1 * dir2 := Nat.le_mul_of_pos_left dir2 (by omega)
  have hnum := @getDir1Dir2_storedPath dir1 dir2 datadir base d h1 h2 (by omega) (by omega) hbase
    (hname ▸ hlen)
  have hset : setTimeStamp dir1 dir2 f task = setTimeStampByInt f dir2 d task.mtime := by
    unfold setTimeStamp
    rw [hname, hnum]
    exact setTimeStampInt_nat f dir2 d task.mtime
  have hd := mem_dirPairs.mpr ⟨h1, h2⟩
  obtain ⟨hpos, hend⟩ := slot_of_mem hstamps hroom hd
  obtain ⟨hown, hother⟩ := getTimeStamp_setTimeStamp hstamps hroom hd hmtime
  rw [hset]
  refine ⟨?_, hown, fun e he1 he2 hne => hother e (mem_dirPairs.mpr ⟨he1, he2⟩) hne⟩
  rw [setTimeStamp_record _ hpos (by omega)]

/-- A store of 2 by 2 directories, one of them stamped by the operator, and a file that is finished
    in "/d/1/0". -/
def finishedTask : TaskBase :=
  { TaskBase.zero with filename := storedPath (ascii "/d") (1, 0) (ascii "x"), mtime := 1234 }

theorem finish_stamps_finishedTask :
    getTimeStampByInt (setTimeStamp 2 2 (stamped 2 2 [] [.byInt 0 1 77]) finishedTask).2 2 (1, 0) =
      1234 ∧
      getTimeStampByInt (setTimeStamp 2 2 (stamped 2 2 [] [.byInt 0 1 77]) finishedTask).2 2 (0,
        1) =
        getTimeStampByInt (stamped 2 2 [] [.byInt 0 1 77]) 2 (0, 1) := by
  obtain ⟨-, hown, hother⟩ :=
    @finish_stamps_directory 2 2 (by decide) [] [.byInt 0 1 77] (ascii "/d")
    (ascii "x") (1, 0) (by decide) (by decide) (by decide) finishedTask rfl (by decide) (by decide)
      _ rfl
  exact ⟨hown, hother (0, 1) (by decide) (by decide) (by decide)⟩

end Pfs
