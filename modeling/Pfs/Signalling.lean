/-
  The signalling service and the other users of the task pool (network/S,
  network/pfs_task.c, pfs_agent.c, pfs_maintain.c).
-/
import Pfs.Services

namespace Pfs

open Lib

/-! ## 1. Connections of the signalling service -/

/-- Send `n` bytes of a buffer: what is left, and the marks of the messages that are complete. -/
def flushOut : Nat → List OutMsg → List OutMsg × List Nat
  | _, [] => ([], [])
  | n, m :: ms =>
    if m.bytes.length ≤ n then
      ((flushOut (n - m.bytes.length) ms).1, m.op.toList ++ (flushOut (n - m.bytes.length) ms).2)
    else ({ m with bytes := m.bytes.drop n } :: ms, [])

namespace Sig

/-- `find_ip_stat` -/
def findIpStat (g : Sig) (ip : UInt32) : Option SigPeer := g.peers.find? fun p => p.ip == ip

/-- `set_client_data`. -/
def say (g : Sig) (fd : Fd) (m : OutMsg) : Sig :=
  { g with peers := g.peers.map fun p => if p.fd = fd then { p with out := p.out ++ [m] } else p }

/-- `svc_initconn`; the system gives no descriptor that is in use. -/
def connect (g : Sig) (fd : Fd) (ip : UInt32) : Sig :=
  if g.peers.any fun p => p.fd == fd then g else { g with peers := ⟨fd, ip, []⟩ :: g.peers }

/-- `svc_finiconn`: what stands in the send buffer is lost. -/
def close (g : Sig) (fd : Fd) : Sig := { g with peers := g.peers.filter fun p => p.fd != fd }

/-- `do_send` of `n` bytes. -/
def flush (g : Sig) (fd : Fd) (n : Nat) : Sig :=
  { g with
    peers := g.peers.map fun p => if p.fd = fd then { p with out := (flushOut n p.out).1 } else p
    sent := g.sent ++ g.peers.flatMap fun p =>
      if p.fd = fd then (flushOut n p.out).2.map fun op => (op, p.ip) else [] }

/-- `do_dispatch_task` -/
def doDispatchTask (g : Sig) (peer : SigPeer) (base : TaskBase) (status : UInt8) (op : Option Nat) :
    Sig :=
  { g.say peer.fd ⟨op, createSigMsg NEWTASK_REQ status base.bytes BASE_SIZE⟩ with
    puts := g.puts ++ op.toList.map fun k => (k, peer.ip) }

end Sig

/-! ## 2. Finished tasks -/

variable (cfg : Cfg)

/-- `create_delay_task`; the time stamp is also written to the record it was given. -/
def createDelayTask (e : Env) (ip : UInt32) (op : Nat) (base : TaskBase) (g : Sig) :
    TaskBase × Sig :=
  match e.get .home g.pool with
  | none => (base, g)
  | some (i, pool) =>
    let base := { base with starttime := e.now }
    let sub := { TaskSub.zero with peerip := ip, operType := .sync2Domain }
    (base, { g with pool := e.set i .waitSync (pool.create i e.now base sub (some op)) })

/-- The loop of `sync_task_2_domain`. -/
def syncMembers (envs : Nat → Env) (op : Nat) : List Member → Nat → TaskBase → Sig → TaskBase × Sig
  | [], _, base, g => (base, g)
  | m :: ms, k, base, g =>
    if m.ip = cfg.selfIp ∨ m.offline then syncMembers envs op ms (k + 1) base g
    else
      let g := { g with owed := g.owed ++ [(op, m.ip)] }
      match g.findIpStat m.ip with
      | none =>
        let r := createDelayTask (envs k) m.ip op base g
        syncMembers envs op ms (k + 1) r.1 r.2
      | some peer =>
        syncMembers envs op ms (k + 1) base (g.doDispatchTask peer base TASK_SYNC (some op))

/-- `sync_task_2_domain`; it always returns 0. -/
def syncTask2Domain (envs : Nat → Env) (base : TaskBase) (g : Sig) : TaskBase × Sig :=
  syncMembers cfg envs g.popped cfg.members 0 base { g with popped := g.popped + 1 }

/-- A source task that is reported to the domain. -/
def Tasklist.reported (n : Tasklist) : Bool :=
  n.sub.needSync == .source && (n.base.overstatus == OVER_OK || n.base.overstatus == OVER_UNLINK)

/-- `OVER_E_MD5` with tries left. -/
def Tasklist.again (n : Tasklist) : Bool :=
  n.base.overstatus == OVER_E_MD5 && cfg.retry != 0 && decide (n.base.retry < cfg.retry)

/-- A round of `do_fin_task` for the task it got. -/
def finOne (envs : Nat → Env) (i : NodeId) (g : Sig) : Sig :=
  let e := envs 0
  let n := g.pool.node i
  if n.again cfg then
    let base := { n.base with retry := n.base.retry + 1, overstatus := OVER_UNKNOWN }
    { g with pool := e.set i .wait (g.pool.store i base n.sub) }
  else if n.reported then
    let r := syncTask2Domain cfg (fun k => envs (k + 1)) n.base g
    { r.2 with pool := e.set i .clean (r.2.pool.store i r.1 n.sub) }
  else { g with pool := e.set i .clean g.pool }

/-- The rounds of `do_fin_task`; none of them adds to TASK_Q_FIN. -/
def finLoop (envs : Nat → Nat → Env) : Nat → Nat → Sig → Sig
  | 0, _, g => g
  | n + 1, k, g =>
    match (envs k 0).get .fin g.pool with
    | none => g
    | some (i, pool) => finLoop envs n (k + 1) (finOne cfg (envs k) i { g with pool := pool })

/-- `do_fin_task` -/
def doFinTask (envs : Nat → Nat → Env) (g : Sig) : Sig :=
  finLoop cfg envs (g.pool.q .fin).length 0 g

/-! ## 3. `check_task` -/

/-- A round of `do_check_sync_task`. -/
def checkSyncOne (e : Env) (i : NodeId) (g : Sig) : Sig :=
  let base := (g.pool.node i).base
  match g.findIpStat base.dstip with
  | none => { g with pool := e.set i .home g.pool }
  | some peer =>
    let msg := createSigMsg SYNC_DIR_RSP TASK_SYNC_DIR base.bytes SYNC_SIZE
    { g.say peer.fd ⟨none, msg⟩ with pool := e.set i .home g.pool }

def checkSyncLoop (envs : Nat → Env) : Nat → Nat → Sig → Sig
  | 0, _, g => g
  | n + 1, k, g =>
    match (envs k).get .syncDirRsp g.pool with
    | none => g
    | some (i, pool) =>
      checkSyncLoop envs n (k + 1) (checkSyncOne (envs k) i { g with pool := pool })

/-- `do_check_sync_task` -/
def doCheckSyncTask (envs : Nat → Env) (g : Sig) : Sig :=
  checkSyncLoop envs (g.pool.q .syncDirRsp).length 0 g

/-- A round of `check_task`: the delayed task is put on a connection to its member, or parked. The
    files of a directory report no operation. -/
def delayOne (e : Env) (dir : Bool) (i : NodeId) (g : Sig) : Sig :=
  let n := g.pool.node i
  match g.findIpStat n.sub.peerip with
  | none => { g with pool := e.set i (if dir then .waitSyncDirTmp else .waitSyncIp) g.pool }
  | some peer =>
    let status := if dir then STATUS_Q_SYNC_DIR else TASK_SYNC
    { g.doDispatchTask peer n.base status (if dir then none else n.op) with
      pool := e.set i .home g.pool }

/-- The rounds of `check_task`. -/
def delayLoop (envs : Nat → Env) : Nat → Nat → Sig → Sig
  | 0, _, g => g
  | n + 1, k, g =>
    match (envs k).get .waitSync g.pool with
    | some (i, pool) => delayLoop envs n (k + 1) (delayOne (envs k) false i { g with pool := pool })
    | none =>
      match (envs k).get .waitSyncDir g.pool with
      | some (i, pool) =>
        delayLoop envs n (k + 1) (delayOne (envs k) true i { g with pool := pool })
      | none => g

/-- The outcomes of one pass of `check_task`. -/
structure PassEnv where
  unpark : Nat → Env
  unparkDir : Nat → Env
  delay : Nat → Env
  fin : Nat → Nat → Env
  rsp : Nat → Env

/-- `check_task` of the signalling service. -/
def sigCheckTask (v : PassEnv) (g : Sig) : Sig :=
  let pool := moveAll v.unpark .waitSyncIp .waitSync cfg.maxTaskRunOnce 0 g.pool
  let pool := moveAll v.unparkDir .waitSyncDirTmp .waitSyncDir cfg.maxTaskRunOnce 0 pool
  let g := delayLoop v.delay cfg.maxTaskRunOnce 0 { g with pool := pool }
  doCheckSyncTask v.rsp (doFinTask cfg v.fin g)

/-! ## 4. Expiry, the agent, and the operator's commands -/

/-- `atomic_dec(&(taskcount[task->status]))`. -/
def Pool.uncount (p : Pool) (i : NodeId) : Pool :=
  match (p.node i).status with
  | some q => p.count q (-1)
  | none => p

/-- Out of its queue, zeroed, and to TASK_Q_HOME. -/
def sendHome (e : Env) (i : NodeId) (p : Pool) : Pool :=
  e.set i .home (((p.unlink i).uncount i).store i .zero .zero)

/-- `check_task_timeout` -/
def checkTaskTimeout (e : Env) (g : Sig) (i : NodeId) : Sig :=
  let n := g.pool.node i
  let overstatus :=
    if cfg.taskTimeout < e.now - n.base.starttime then OVER_TIMEOUT else n.base.overstatus
  let pool := g.pool.over i overstatus
  if overstatus = OVER_TIMEOUT then
    { g with
      pool := sendHome e i pool
      expired := g.expired ++ [⟨e.now, n.born, n.op, n.sub.peerip⟩] }
  else { g with pool := pool }

/-- `scan_some_status_task(q, check_task_timeout)`. -/
def scanTimeout (e : Env) (g : Sig) (q : TaskQ) : Sig :=
  if e.getLock q then (g.pool.q q).foldl (checkTaskTimeout cfg e) g else g

/-- `do_timeout_task` -/
def doTimeoutTask (e : Env) (g : Sig) : Sig :=
  if cfg.checkTaskTimeout then scannedQueues.foldl (scanTimeout cfg e) g else g

/-- `scan_some_status_task(TASK_Q_CLEAN, get_data_from_task)` of the agent. -/
def cleanTask (e : Env) (g : Sig) : Sig :=
  if e.getLock .clean then
    { g with pool := (g.pool.q .clean).foldl (fun p i => sendHome e i p) g.pool }
  else g

/-- `do_poss_sync_file` -/
def doPossSyncFile (e : Env) (file : Path) (ip : UInt32) (g : Sig) : Sig :=
  match e.get .home g.pool with
  | none => g
  | some (i, pool) =>
    let base := { TaskBase.zero with
      filename := file.take 255, starttime := e.now, type := TASK_ADDFILE, dstip := cfg.selfIp }
    let sub := { TaskSub.zero with
      operType := .fromPoss, needSync := .syncVossFile, peerip := ip }
    { g with pool := e.set i .wait (pool.create i e.now base sub none) }

/-- TASK_SYNCDIR -/
def TASK_SYNCDIR : UInt8 := 51

/-- `do_poss_sync_dir` -/
def doPossSyncDir (e : Env) (file : Path) (starttime : Int) (g : Sig) : Sig :=
  match e.get .home g.pool with
  | none => g
  | some (i, pool) =>
    let base := { TaskBase.zero with
      filename := file.take 255, starttime := starttime, type := TASK_SYNCDIR }
    let sub := { TaskSub.zero with needSync := .syncVossFile }
    { g with pool := e.set i .syncPoss (pool.create i e.now base sub none) }

/-! ## 5. Requests of other storages -/

/-- `do_sync_dir_req`: the request is stored over the start of a cleared record. -/
def doSyncDirReq (e : Env) (peer : SigPeer) (req : List UInt8) (g : Sig) : Sig :=
  match e.get .home g.pool with
  | none => g.say peer.fd ⟨none, createSigMsg SYNC_DIR_RSP TASK_SYNC_DIR req SYNC_SIZE⟩
  | some (i, pool) =>
    let base := { TaskBase.zero with filename := req.take SYNC_SIZE, dstip := peer.ip }
    { g with pool := e.set i .syncDirReq (pool.create i e.now base (pool.node i).sub none) }

/-- A file that `do_sync_dir_req_sub` finds: name, size, time and digest. -/
structure DirFile where
  filename : Path
  fsize : Int
  mtime : Int
  filemd5 : List UInt8

/-- `do_sync_dir_req_sub` for one file: the record has no `starttime`. -/
def syncDirFile (e : Env) (ip : UInt32) (f : DirFile) (g : Sig) : Sig :=
  match e.get .home g.pool with
  | none => g
  | some (i, pool) =>
    let base := { TaskBase.zero with
      filename := f.filename, fsize := f.fsize, mtime := f.mtime, filemd5 := f.filemd5,
      type := TASK_ADDFILE }
    let sub := { TaskSub.zero with peerip := ip }
    { g with pool := e.set i .waitSyncDir (pool.create i e.now base sub none) }

def syncDirFiles (envs : Nat → Env) (ip : UInt32) : List DirFile → Nat → Sig → Sig
  | [], _, g => g
  | f :: fs, k, g => syncDirFiles envs ip fs (k + 1) (syncDirFile (envs k) ip f g)

/-- A round of `sync_dir_thread`; `files` is what the directory holds, `none` when it cannot be
    opened. -/
def syncDirTask (e : Env) (envs : Nat → Env) (files : Option (List DirFile)) (g : Sig) : Sig :=
  match e.get .syncDirReq g.pool with
  | none => g
  | some (i, pool) =>
    let ip := (pool.node i).base.dstip
    let g := syncDirFiles envs ip (files.getD []) 0 { g with pool := pool }
    let overstatus := if files.isSome then OVER_OK else OVER_E_OPEN_SRCFILE
    { g with pool := e.set i .syncDirRsp (g.pool.over i overstatus) }

/-- `do_newtask` once a node has been obtained: the task keeps the record as it came, the file
    operations work on the received one. -/
def newtaskNode (e : Env) (h : SigHead) (i : NodeId) (base : TaskBase) (s : Storage) :
    Except Fault Storage :=
  if base.type = TASK_DELFILE then
    match deleteLocalfile e.pre cfg.datadir e.fs base with
    | .error f => .error f
    | .ok (_, _, ops, rm) =>
      .ok ({ s with timers := s.timers ++ rm.toList }.log ops |>.finish e i OVER_OK)
  else
    match checkLocalfileMd5 e.pre cfg.datadir e.fs base with
    | .error f => .error f
    | .ok (ret, _, ops) =>
      let s := s.log ops
      if ret = .ok then .ok (s.finish e i OVER_OK)
      else
        let q := if h.status = STATUS_Q_SYNC_DIR then TaskQ.syncDir else .wait
        .ok { s with pool := e.set i q (s.pool.over i OVER_UNKNOWN) }

/-- `do_newtask` -/
def doNewtask (e : Env) (peer : SigPeer) (h : SigHead) (base : TaskBase) (s : Storage) :
    Except Fault Storage :=
  if e.selfOffline then .ok s
  else
    let base := { base with starttime := e.now, dstip := cfg.selfIp }
    match e.get .home s.pool with
    | none =>
      let msg := createSigMsg NEWTASK_RSP TASK_FAILED base.bytes BASE_SIZE
      .ok { s with toSig := s.toSig.say peer.fd ⟨none, msg⟩ }
    | some (i, pool) =>
      let sub := { TaskSub.zero with
        processlen := base.fsize, operType := .getReq, peerip := peer.ip }
      newtaskNode cfg e h i base { s with pool := pool.create i e.now base sub none }

end Pfs
