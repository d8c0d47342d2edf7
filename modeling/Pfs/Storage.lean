/-
  The state of one storage: connections of the data and upload services (`pfs_cs_peer`
  and `struct conn`), connections of the signalling service, the task pool.

  What the system answers to one call of a handler is an argument (`Env`): the clock, the outcome
  of the timed locks and of `malloc`, of the file operations, of `connect`. Every path that is
  opened, created, renamed or unlinked is written to `fs`.

  Marks the program does not have: `fs`, `expired`, and in the signalling part the numbering of the
  finished tasks and what became of them.
-/
import Pfs.Localfile
import Pfs.Protocol
import Pfs.Transfer
import Pfs.UpName

namespace Pfs

open Lib

/-! ## 1. Commands -/

def CMD_GET_FILE_REQ : UInt8 := 0x11
def CMD_GET_FILE_RSP : UInt8 := 0x12
def CMD_PUT_FILE_REQ : UInt8 := 0x15
def CMD_PUT_FILE_RSP : UInt8 := 0x16
def NEWTASK_REQ : UInt8 := 0x0D
def NEWTASK_RSP : UInt8 := 0x0E
def SYNC_DIR_RSP : UInt8 := 0x10

def FILE_SYNC_DST_2_SRC : UInt8 := 0x81
def FILE_SYNC_DST_2_SRC_E_OPENFILE : UInt8 := 0x86
def FILE_SYNC_DST_2_SRC_E_MALLOC : UInt8 := 0x87

def TASK_SYNC : UInt8 := 0x03
def TASK_FAILED : UInt8 := 0x08
def TASK_SYNC_DIR : UInt8 := 0x09
/-- The queue number TASK_Q_SYNC_DIR, which the signalling service uses as a message status. -/
def STATUS_Q_SYNC_DIR : UInt8 := 7

def ADD_PATH_BY_STORAGE : UInt8 := 0
def ADD_PATH_BY_BNAME : UInt8 := 2
def ADD_QUERY_DIR : UInt8 := 5

/-- `sizeof(t_task_base)` -/
def BASE_SIZE : Nat := 824
/-- `sizeof(t_pfs_sync_task)` -/
def SYNC_SIZE : Nat := 32

/-! ## 2. Records as bytes -/

def ascii (s : String) : List UInt8 := s.toList.map fun c => UInt8.ofNat c.toNat

/-- A `char` field of `n` bytes that holds a string. -/
def charField (n : Nat) (s : List UInt8) : List UInt8 := (s ++ List.replicate n 0).take n

/-- The `n` low bytes of an integer, little-endian. -/
def intField (n : Nat) (x : Int) : List UInt8 :=
  (List.range n).map fun k => UInt8.ofNat ((x / 256 ^ k) % 256).toNat

/-- A `t_task_base` in memory. -/
def TaskBase.bytes (b : TaskBase) : List UInt8 :=
  charField 256 b.filename ++ charField 256 b.tmpfile ++ charField 256 b.retfile ++
    charField 20 b.filemd5 ++ intField 4 b.dstip.toNat ++ intField 8 b.starttime ++
    intField 8 b.mtime ++ intField 8 b.fsize ++ [b.type, b.retry, b.overstatus, 0, 0, 0, 0, 0]

/-! ## 3. Configuration and environment -/

/-- A member of `self_domain`. -/
structure Member where
  ip : UInt32
  offline : Bool
  deriving DecidableEq, Repr

/-- `g_config`, `self_ip` and `self_domain`. -/
structure Cfg where
  datadir : Path
  selfIp : UInt32
  domain : Path
  members : List Member
  retry : UInt8
  maxTaskRunOnce : Nat
  maxDataConnects : Nat
  taskTimeout : Int
  checkTaskTimeout : Bool
  pfsTest : Bool
  initBuffSize : Nat

abbrev Fd := Nat

/-- What the system answers during one call of a handler. -/
structure Env where
  now : Int
  /-- the timed lock in `pfs_get_task` is obtained -/
  getLock : TaskQ → Bool
  /-- the timed lock in `pfs_set_task` is obtained -/
  setLock : TaskQ → Bool
  malloc : Bool
  /-- the bytes in front of a received record -/
  pre : Path
  fs : FsEnv
  /-- the file operations of a second `check_disk_space` -/
  fsAgain : FsEnv
  write : Nat → Int
  /-- the byte behind `omd5[16]` -/
  behind : UInt8
  /-- what `%m` prints -/
  errmsg : List UInt8
  /-- `get_max_free_storage` -/
  maxFree : UInt32 × UInt32
  /-- the descriptor of `createsocket` and `svc_initconn`, and the address that `getpeerip` gives
      for it: another one if `inet_pton` refused the text -/
  connect : UInt32 → Option (Fd × UInt32)
  /-- `self_stat == OFF_LINE` -/
  selfOffline : Bool

/-- `pfs_get_task`. -/
def Env.get (e : Env) (q : TaskQ) (p : Pool) : Option (NodeId × Pool) :=
  pfsGetTask (e.getLock q) e.malloc e.now q p

/-- `pfs_set_task`. -/
def Env.set (e : Env) (i : NodeId) (q : TaskQ) (p : Pool) : Pool :=
  pfsSetTask (e.setLock q) e.now i q p

theorem Env.get_cases {e : Env} {q : TaskQ} {i : NodeId} {p p' : Pool}
    (h : e.get q p = some (i, p')) :
    (∃ js, p.q q = i :: js ∧
      p' = ((p.count q (-1)).modify i ({ · with status := none })).unlink i) ∨
      q = .home ∧ i = p.fresh ∧
        p' = { (p.modify i ({ · with last := e.now, status := none })) with fresh := i + 1 } := by
  unfold Env.get pfsGetTask at h
  split at h
  · split at h
    · rename_i hl
      cases h
      exact .inl ⟨_, hl, rfl⟩
    split at h
    · rename_i hhome
      cases h
      exact .inr ⟨hhome.1, rfl, rfl⟩
    · cases h
  · cases h

theorem Env.q_set (e : Env) (i : NodeId) (q r : TaskQ) (p : Pool) : (e.set i q p).q r =
    if e.setLock q then (if r = q then (p.unlink i).q r ++ [i] else (p.unlink i).q r) else p.q
      r := by
  unfold Env.set pfsSetTask
  split
  · show Function.update (p.unlink i).q q ((p.unlink i).q q ++ [i]) r = _
    rw [Function.update_apply]
    split
    · rename_i hr
      rw [hr]
    · rfl
  · rfl

/-! ## 4. Connections -/

inductive Svc where
  | data
  | up
  deriving DecidableEq, Repr

inductive ConMode where
  | active
  | passive
  deriving DecidableEq, Repr

/-- `sock_stat` -/
inductive SockStat where
  | logout
  | connected
  | login
  | idle
  | prepareRecvfile
  | recvfileing
  | sendfileing
  deriving DecidableEq, Repr

/-- `pfs_cs_peer` of the data and upload services, with the connection's send buffer. -/
structure Peer where
  svc : Svc
  ip : UInt32
  mode : ConMode
  sockStat : SockStat
  localInFd : Int
  headlen : Nat
  close : Bool
  ctx : Md5Context
  recvtask : Option NodeId
  sendtask : Option NodeId
  /-- `send_len`, an `int` -/
  sendLen : Int
  sendBuff : Mybuff

/-- `svc_initconn` and `add_fd_2_efd`. -/
def Peer.init (svc : Svc) (ip : UInt32) : Peer where
  svc := svc
  ip := ip
  mode := .passive
  sockStat := .connected
  localInFd := 0
  headlen := 0
  close := false
  ctx := md5.init
  recvtask := none
  sendtask := none
  sendLen := 0
  sendBuff := mybuffInit

/-- `set_client_data`. -/
def Peer.say (cfg : Cfg) (p : Peer) (msg : List UInt8) : Peer :=
  { p with sendBuff := mybuffSetdata cfg.initBuffSize p.sendBuff msg }

/-- A message in a send buffer: the bytes not yet sent, and the finished task it reports. -/
structure OutMsg where
  op : Option Nat
  bytes : List UInt8
  deriving DecidableEq, Repr

structure SigPeer where
  fd : Fd
  ip : UInt32
  out : List OutMsg
  deriving DecidableEq, Repr

/-- A task that `do_timeout_task` moved: when, and when it had been created. -/
structure Expired where
  now : Int
  born : Int
  op : Option Nat
  ip : UInt32
  deriving DecidableEq, Repr

/-- What the signalling service works on: the pool and its connections, the newest first. Marks:
    how many source tasks `do_fin_task` has finished, which members are owed each of them, in
    which order they were put on connections, which of them are completely sent, and the tasks
    that expired. -/
structure Sig where
  pool : Pool
  peers : List SigPeer
  popped : Nat
  owed : List (Nat × UInt32)
  puts : List (Nat × UInt32)
  sent : List (Nat × UInt32)
  expired : List Expired

/-- The whole storage. `online` is the data service's list of connections, the newest first;
    `timers` are the files that wait for `real_rm_file`. -/
structure Storage extends Sig where
  conn : Fd → Option Peer
  online : List Fd
  fs : List FsOp
  timers : List Path
  gIndex : Nat
  picIndex : Svc → Nat

/-- The storage after `init_task_info`, without connections. -/
def Storage.init : Storage where
  pool := initTaskInfo
  peers := []
  popped := 0
  owed := []
  puts := []
  sent := []
  expired := []
  conn := fun _ => none
  online := []
  fs := []
  timers := []
  gIndex := 0
  picIndex := fun _ => 0

namespace Storage

def setPeer (s : Storage) (fd : Fd) (p : Peer) : Storage :=
  { s with conn := Function.update s.conn fd (some p) }

def log (s : Storage) (ops : List FsOp) : Storage := { s with fs := s.fs ++ ops }

end Storage

inductive RecvRet where
  | close
  | addEpollin
  | addEpollout
  | send
  deriving DecidableEq, Repr

/-- `task->base.overstatus = …` -/
def Pool.over (p : Pool) (i : NodeId) (o : UInt8) : Pool :=
  p.modify i fun n => { n with base := { n.base with overstatus := o } }

def Pool.store (p : Pool) (i : NodeId) (base : TaskBase) (sub : TaskSub) : Pool :=
  p.modify i fun n => { n with base := base, sub := sub }

theorem Env.node_set (e : Env) (i : NodeId) (q : TaskQ) (p : Pool) :
    ((e.set i q p).node i).base = (p.node i).base ∧ ((e.set i q p).node i).sub =
      (p.node i).sub := by
  rw [Env.set, pfsSetTask]
  split <;> simp [Pool.modify, Pool.count, Pool.append, Pool.unlink]

/-- Overwrite a node's task with a new one; what was there before is gone. -/
def Pool.create (p : Pool) (i : NodeId) (now : Int) (base : TaskBase) (sub : TaskSub)
    (op : Option Nat) : Pool :=
  p.modify i fun n => { n with base := base, sub := sub, born := now, op := op }

theorem base_create (p : Pool) (i : NodeId) (now : Int) (b : TaskBase) (sub : TaskSub)
    (op : Option Nat) : ((p.create i now b sub op).node i).base = b := by
  simp [Pool.create, Pool.modify]

theorem sub_create (p : Pool) (i : NodeId) (now : Int) (b : TaskBase) (sub : TaskSub)
    (op : Option Nat) : ((p.create i now b sub op).node i).sub = sub := by
  simp [Pool.create, Pool.modify]

end Pfs
