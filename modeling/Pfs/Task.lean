/-
  Tasks and their queues (lib/pfs_task.h, network/pfs_task.c).

  A task node is known by its number. The pool holds the 18 queues, the nodes' contents and the
  counters; `pfsGetTask` and `pfsSetTask` take the outcome of their timed lock as an argument.
  `pfs_set_task` unlinks the node from whatever queue it is in; a lock that times out leaves
  everything as it is.
-/
import Pfs.Paths

namespace Pfs

/-! ## 1. Task records -/

/-- The queues, in the order of the source's enumeration. -/
inductive TaskQ where
  | delay
  | wait
  | waitTmp
  | waitSync
  | waitSyncIp
  | waitSyncDir
  | waitSyncDirTmp
  | syncDir
  | syncDirTmp
  | run
  | fin
  | clean
  | home
  | send
  | recv
  | syncPoss
  | syncDirReq
  | syncDirRsp
  deriving DecidableEq, Repr

/-- The queues `do_timeout_task` scans: from TASK_Q_DELAY up to, but without, TASK_Q_CLEAN. -/
def scannedQueues : List TaskQ :=
  [.delay, .wait, .waitTmp, .waitSync, .waitSyncIp, .waitSyncDir, .waitSyncDirTmp, .syncDir,
    .syncDirTmp, .run, .fin]

/-- `oper_type` -/
inductive OperType where
  | idle
  | getReq
  | getRsp
  | sync2Domain
  | putReq
  | putRsp
  | upReq
  | fromPoss
  deriving DecidableEq, Repr

/-- `need_sync` -/
inductive NeedSync where
  | dst
  | source
  | srcNosync
  | syncIsdir
  | syncVossFile
  deriving DecidableEq, Repr

-- `overstatus` and `type` arrive in records from the network, so they stay bytes.
def OVER_UNKNOWN : UInt8 := 0
def OVER_OK : UInt8 := 1
def OVER_E_MD5 : UInt8 := 2
def OVER_UNLINK : UInt8 := 6
def OVER_TIMEOUT : UInt8 := 7
def OVER_E_OPEN_SRCFILE : UInt8 := 11
def OVER_E_OPEN_DSTFILE : UInt8 := 12
def OVER_E_TYPE : UInt8 := 14
def OVER_SEND_LEN : UInt8 := 15
def OVER_TOO_MANY_TRY : UInt8 := 16
def OVER_DISK_ERR : UInt8 := 17
def OVER_UP_ERR : UInt8 := 18

def TASK_ADDFILE : UInt8 := 48
def TASK_DELFILE : UInt8 := 49

/-- `t_task_base`. -/
structure TaskBase where
  filename : Path
  tmpfile : Path
  retfile : Path
  filemd5 : List UInt8
  dstip : UInt32
  starttime : Int
  mtime : Int
  fsize : Int
  type : UInt8
  retry : UInt8
  overstatus : UInt8
  deriving DecidableEq, Repr

/-- `memset(&base, 0, sizeof(base))`. -/
def TaskBase.zero : TaskBase := ⟨[], [], [], List.replicate 17 0, 0, 0, 0, 0, 0, 0, 0⟩

/-- `t_task_sub`; `peerip` is what `str2ip` gives for its text, INADDR_NONE for a name. -/
structure TaskSub where
  processlen : Int
  lastlen : Int
  peerip : UInt32
  operType : OperType
  needSync : NeedSync
  deriving DecidableEq, Repr

def TaskSub.zero : TaskSub := ⟨0, 0, 0, .idle, .dst⟩

/-- `t_pfs_tasklist`, with two marks the program does not have: when the task it holds was created
    on this storage (`born`), and the source operation it carries (`op`). -/
structure Tasklist where
  base : TaskBase
  sub : TaskSub
  last : Int
  status : Option TaskQ
  born : Int
  op : Option Nat
  deriving DecidableEq, Repr

/-- A node as `init_task_info` prepares it. -/
def Tasklist.init : Tasklist := ⟨.zero, .zero, -1, some .home, 0, none⟩

/-! ## 2. The pool -/

abbrev NodeId := Nat

/-- The state of network/pfs_task.c: queues, nodes, the number of nodes ever allocated and the
    queue counters. An `atomic_t` has what `toInt32` makes of its counter. -/
structure Pool where
  q : TaskQ → List NodeId
  node : NodeId → Tasklist
  fresh : NodeId
  taskcount : TaskQ → Int

/-- `list_add` of the nodes `0, 1, …`: the last one added comes first. -/
def homeInit : Nat → List NodeId
  | 0 => []
  | n + 1 => n :: homeInit n

theorem mem_homeInit {n i : Nat} : i ∈ homeInit n ↔ i < n := by
  induction n with
  | zero => simp [homeInit]
  | succ n ih =>
    rw [homeInit, List.mem_cons, ih]
    omega

theorem nodup_homeInit (n : Nat) : (homeInit n).Nodup := by
  induction n with
  | zero => exact List.nodup_nil
  | succ n ih => exact List.nodup_cons.mpr ⟨fun h => Nat.lt_irrefl n (mem_homeInit.mp h), ih⟩

theorem length_homeInit (n : Nat) : (homeInit n).length = n := by
  induction n with
  | zero => rfl
  | succ n ih => rw [homeInit, List.length_cons, ih]

/-- `init_task_info`: 2048 nodes in TASK_Q_HOME, the counters zero. -/
def initTaskInfo : Pool where
  q := Function.update (fun _ => []) .home (homeInit 2048)
  node := fun _ => .init
  fresh := 2048
  taskcount := fun _ => 0

namespace Pool

/-- `list_del_init`: out of whatever queue the node is linked in. -/
def unlink (p : Pool) (i : NodeId) : Pool := { p with q := fun q => (p.q q).filter (· != i) }

def modify (p : Pool) (i : NodeId) (f : Tasklist → Tasklist) : Pool :=
  { p with node := Function.update p.node i (f (p.node i)) }

/-- `list_add_tail`. -/
def append (p : Pool) (i : NodeId) (q : TaskQ) : Pool :=
  { p with q := Function.update p.q q (p.q q ++ [i]) }

def count (p : Pool) (q : TaskQ) (d : Int) : Pool :=
  { p with taskcount := Function.update p.taskcount q (p.taskcount q + d) }

end Pool

theorem filter_ne_self {i : NodeId} {js : List NodeId} (h : i ∉ js) : js.filter (· != i) = js := by
  refine List.filter_eq_self.mpr fun j hj => ?_
  have hne : j ≠ i := by
    rintro rfl
    exact h hj
  simpa using hne

/-- `pfs_get_task`: the first node of the queue; for TASK_Q_HOME a new one when there is none.
    `lock` is the outcome of the timed lock, `malloc` that of the allocation. -/
def pfsGetTask (lock malloc : Bool) (now : Int) (q : TaskQ) (p : Pool) : Option (NodeId × Pool) :=
  if lock then
    match p.q q with
    | i :: _ => some (i, ((p.count q (-1)).modify i ({ · with status := none })).unlink i)
    | [] =>
      if q = .home ∧ malloc then
        let i := p.fresh
        some (i, { (p.modify i ({ · with last := now, status := none })) with fresh := i + 1 })
      else none
  else none

/-- `pfs_set_task`: nothing happens when the lock times out. -/
def pfsSetTask (lock : Bool) (now : Int) (i : NodeId) (q : TaskQ) (p : Pool) : Pool :=
  if lock then
    let p := (p.unlink i).append i q
    let p := p.modify i fun n =>
      { n with status := some q, last := if 0 < n.last then now else n.last }
    p.count q 1
  else p

end Pfs
