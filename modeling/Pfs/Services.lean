/-
  The handlers of the data and upload services (network/D, network/U).

  The two services have the same source but for a few places; a handler here reads the service of
  its connection where they differ.
-/
import Pfs.Storage

namespace Pfs

open Lib

variable (cfg : Cfg)

/-! ## 1. Replies -/

/-- `create_push_rsp` -/
def createPushRsp (base : TaskBase) (p : Peer) : Peer :=
  let text := ascii "OK|" ++ base.retfile ++ ascii "|" ++ cfg.domain
  { p with close := true }.say cfg
    (createSigMsg CMD_PUT_FILE_RSP 0 (charField 256 (text.take 255)) 256)

/-- `create_push_rsp_err` -/
def createPushRspErr (errmsg : List UInt8) (p : Peer) : Peer :=
  { p with close := true }.say cfg (createSigMsg CMD_PUT_FILE_RSP 0 errmsg errmsg.length)

/-- The operation type of a task that answers a CMD_PUT_FILE_REQ. -/
def Svc.putOper : Svc → OperType
  | .data => .putReq
  | .up => .upReq

/-! ## 2. CMD_GET_FILE_RSP -/

/-- `do_recv_task` -/
def doRecvTask (e : Env) (fd : Fd) (h : SigHead) (base : TaskBase) (p : Peer) (s : Storage) :
    Except Fault (RecvRet × Storage) :=
  if p.sockStat ≠ .prepareRecvfile then .ok (.close, s)
  else
    match p.recvtask with
    | none => .error .nullDeref
    | some i =>
      if h.status ≠ FILE_SYNC_DST_2_SRC then
        .ok (.close, { s with pool := e.set i .fin (s.pool.over i OVER_E_OPEN_SRCFILE) }.setPeer fd
          { p with sockStat := .idle, recvtask := none })
      else
        let n := s.pool.node i
        let same := n.base.filemd5 = base.filemd5
        let base0 := if same then n.base else base
        let sub0 := if same then n.sub else { n.sub with processlen := base.fsize }
        match openTmpLocalfile4Write nodePre cfg.datadir e.fs s.gIndex base0 with
        | .error f => .error f
        | .ok (ret, lfd, base0, gIndex, ops) =>
          let s := { s with pool := s.pool.store i base0 sub0, gIndex := gIndex }.log ops
          let p := { p with localInFd := lfd.getD p.localInFd }
          if ret ≠ .ok then
            let pool := e.set i .clean (s.pool.over i OVER_E_OPEN_DSTFILE)
            .ok (.close, { s with pool := pool }.setPeer fd { p with recvtask := none })
          else .ok (.addEpollin, s.setPeer fd { p with sockStat := .recvfileing })

/-! ## 3. CMD_GET_FILE_REQ -/

/-- The end of `do_send_task`: the reply. -/
def sendRsp (status : UInt8) (base : TaskBase) (p : Peer) : Peer :=
  let msg := createSigMsg CMD_GET_FILE_RSP status base.bytes BASE_SIZE
  { p.say cfg msg with headlen := msg.length }

/-- The task of `do_send_task`. -/
def sendSub (p : Peer) (base : TaskBase) : TaskSub :=
  { TaskSub.zero with
    processlen := base.fsize, peerip := p.ip, operType := .getRsp, needSync := .srcNosync }

/-- `get_localfile_stat`, only for a record without a size or one that is tried again. -/
def sendStat (e : Env) (base : TaskBase) : LocalRet × TaskBase × List FsOp :=
  if base.fsize = 0 ∨ base.retry ≠ 0 then getLocalfileStat e.fs base else (.ok, base, [])

/-- `do_send_task` -/
def doSendTask (e : Env) (fd : Fd) (base : TaskBase) (p : Peer) (s : Storage) : Storage :=
  let p := { p with sendLen := 0 }
  let st := sendStat e base
  let base := st.2.1
  let s := s.log st.2.2
  if st.1 ≠ .ok then s.setPeer fd (sendRsp cfg FILE_SYNC_DST_2_SRC_E_OPENFILE base p)
  else
    match e.get .home s.pool with
    | none => s.setPeer fd (sendRsp cfg FILE_SYNC_DST_2_SRC_E_MALLOC base p)
    | some (i, pool) =>
      let pool := pool.create i e.now base (sendSub p base) none
      let s := s.log (openLocalfile4Read e.fs base).2
      match (openLocalfile4Read e.fs base).1 with
      | none =>
        { s with pool := e.set i .fin (pool.over i OVER_E_OPEN_SRCFILE) }.setPeer fd
          (sendRsp cfg FILE_SYNC_DST_2_SRC_E_OPENFILE base p)
      | some lfd =>
        { s with pool := e.set i .send (pool.over i OVER_UNKNOWN) }.setPeer fd
          (sendRsp cfg FILE_SYNC_DST_2_SRC base
            { p with
              sendtask := some i
              sendBuff := mybuffSetfile p.sendBuff lfd 0 (toSize base.fsize)
              sockStat := .sendfileing })

/-! ## 4. CMD_PUT_FILE_REQ -/

/-- POSIX `basename`. -/
def basename (s : Path) : Path :=
  let t := (s.reverse.dropWhile (· == slash)).reverse
  if s = [] then [dot]
  else if t = [] then [slash]
  else
    match splitLast t with
    | none => t
    | some (_, name) => name

/-- `get_local_bname` -/
def getLocalBname (e : Env) (filename : Path) : Path :=
  (storageDirs e.maxFree.1 e.maxFree.2 ++ slash :: (basename filename).take 127).take 255

/-- `do_query_other` -/
def doQueryOther (e : Env) (p : Peer) : Peer :=
  createPushRsp cfg
    { TaskBase.zero with retfile := storageDirs e.maxFree.1 e.maxFree.2 ++ [slash] } p

/-- The name under which `do_push_task` stores a file, and `pic_index`. -/
def pushName (e : Env) (svc : Svc) (h : SigHead) (base : TaskBase) (picIndex : Nat) :
    Except Fault (Path × Nat) :=
  if base.type ≠ TASK_DELFILE ∧ h.status = ADD_PATH_BY_STORAGE ∧ base.type = TASK_ADDFILE then
    getLocalFilename e.now cfg.selfIp picIndex e.maxFree.1 e.maxFree.2 base.filename
  else if base.type ≠ TASK_DELFILE ∧ svc = .up ∧ h.status = ADD_PATH_BY_BNAME then
    .ok (getLocalBname e base.filename, picIndex)
  else .ok (base.filename, picIndex)

/-- The record and the task that `do_push_task` keeps. -/
def pushBase (e : Env) (p : Peer) (base : TaskBase) : TaskBase :=
  match p.svc with
  | .data => { base with starttime := e.now }
  | .up =>
    { base with
      starttime := e.now
      dstip := p.ip
      mtime := if base.type = TASK_DELFILE then e.now else base.mtime }

def pushSub (p : Peer) (base : TaskBase) : TaskSub :=
  { TaskSub.zero with
    processlen := base.fsize, peerip := p.ip, operType := p.svc.putOper, needSync := .source }

/-- `do_push_task` from the delete on: the received record is converted, the task keeps its own. -/
def pushDelete (e : Env) (fd : Fd) (i : NodeId) (base : TaskBase) (p : Peer) (s : Storage) :
    Except Fault (RecvRet × Storage) :=
  match deleteLocalfile e.pre cfg.datadir e.fs base with
  | .error f => .error f
  | .ok (_, _, ops, rm) =>
    let s := { s with timers := s.timers ++ rm.toList }.log ops
    .ok (.send, { s with pool := e.set i .fin (s.pool.over i OVER_OK) }.setPeer fd
      (createPushRsp cfg (s.pool.node i).base { p with recvtask := none }))

/-- `do_push_task` from the open on. -/
def pushOpen (e : Env) (fd : Fd) (i : NodeId) (p : Peer) (s : Storage) :
    Except Fault (RecvRet × Storage) :=
  let n := s.pool.node i
  match openTmpLocalfile4Write nodePre cfg.datadir e.fs s.gIndex n.base with
  | .error f => .error f
  | .ok (ret, lfd, base0, gIndex, ops) =>
    let s := { s with pool := s.pool.store i base0 n.sub, gIndex := gIndex }.log ops
    let p := { p with localInFd := lfd.getD p.localInFd }
    if ret ≠ .ok then
      let pool := e.set i .clean (s.pool.over i OVER_E_OPEN_DSTFILE)
      .ok (.addEpollout, { s with pool := pool }.setPeer fd
        (createPushRspErr cfg (ascii "open remote file err") { p with recvtask := none }))
    else .ok (.addEpollin, s.setPeer fd { p with sockStat := .recvfileing, recvtask := some i })

/-- `do_push_task` after the query: `sock_stat` is set before anything is known to succeed, and
    `recvtask` is overwritten. -/
def pushTask (e : Env) (fd : Fd) (h : SigHead) (base : TaskBase) (p : Peer) (s : Storage) :
    Except Fault (RecvRet × Storage) :=
  let p := { p with sockStat := .prepareRecvfile }
  match e.get .home s.pool with
  | none =>
    let text := match p.svc with
      | .data => ascii "get task home error!"
      | .up => ascii "malloc error!"
    .ok (.addEpollout, s.setPeer fd (createPushRspErr cfg text p))
  | some (i, pool) =>
    match pushName cfg e p.svc h base (s.picIndex p.svc) with
    | .error f => .error f
    | .ok (name, picIndex) =>
      let base := { base with filename := name }
      let s := { s with
        pool := pool.create i e.now (pushBase e p base) (pushSub p base) none
        picIndex := Function.update s.picIndex p.svc picIndex }
      if base.type = TASK_DELFILE then pushDelete cfg e fd i base p s
      else pushOpen cfg e fd i p s

/-- `do_push_task` -/
def doPushTask (e : Env) (fd : Fd) (h : SigHead) (base : TaskBase) (p : Peer) (s : Storage) :
    Except Fault (RecvRet × Storage) :=
  if p.svc = .up ∧ base.type = TASK_DELFILE ∧ h.status = ADD_QUERY_DIR then
    .ok (.addEpollout, s.setPeer fd (doQueryOther cfg e p))
  else pushTask cfg e fd h base p s

/-! ## 5. The command switch -/

/-- `do_req` of the data and the upload service. -/
def doReq (e : Env) (fd : Fd) (h : SigHead) (base : TaskBase) (p : Peer) (s : Storage) :
    Except Fault (RecvRet × Storage) :=
  if h.cmdid = CMD_GET_FILE_RSP then
    if h.bodylen ≠ BASE_SIZE then .ok (.close, s) else doRecvTask cfg e fd h base p s
  else if h.cmdid = CMD_GET_FILE_REQ ∧ p.svc = .data then
    if h.bodylen ≠ BASE_SIZE then .ok (.close, s)
    else .ok (.addEpollout, doSendTask cfg e fd base p s)
  else if h.cmdid = CMD_PUT_FILE_REQ then
    if h.bodylen ≠ BASE_SIZE then .ok (.close, s) else doPushTask cfg e fd h base p s
  else .ok (.close, s)

/-! ## 6. File bytes -/

/-- `svc_recv` in RECVFILEING once the file is complete. -/
def recvDone (e : Env) (fd : Fd) (i : NodeId) (ctx : Md5Context) (p : Peer) (s : Storage) :
    RecvRet × Storage :=
  let n := s.pool.node i
  let put := n.sub.operType = p.svc.putOper
  let omd5 := md5.final ctx
  let r := closeTmpCheckMv e.fs n.base p.localInFd (omd5.1 ++ [e.behind])
  let s := s.log r.2
  let p := { p with ctx := omd5.2, recvtask := none }
  if r.1 ≠ .ok then
    -- `sock_stat` stays RECVFILEING
    let p := if put then createPushRspErr cfg (ascii "md5 error " ++ e.errmsg) p else p
    (.send, { s with pool := e.set i .fin (s.pool.over i OVER_E_MD5) }.setPeer fd p)
  else
    let p := if put then createPushRsp cfg n.base p else p
    (.send, { s with pool := e.set i .fin (s.pool.over i OVER_OK) }.setPeer fd
      { p with localInFd := -1, sockStat := .idle })

/-- `svc_recv` in RECVFILEING with `b` as receive buffer. -/
def recvFile (e : Env) (fd : Fd) (b : Mybuff) (p : Peer) (s : Storage) : RecvRet × Storage :=
  match p.recvtask with
  | none => (.close, s)
  | some i =>
    let n := s.pool.node i
    match svcRecvFile md5 e.write b ⟨n.sub.processlen, n.sub.lastlen, p.ctx, []⟩ with
    | (.noData, _, _) => (.addEpollin, s)
    | (.writeErr, _, _) =>
      (.addEpollout, s.setPeer fd (if n.sub.operType = p.svc.putOper then
        createPushRspErr cfg (ascii "write err " ++ e.errmsg) p else p))
    | (.more, _, x) =>
      let pool := s.pool.store i n.base { n.sub with lastlen := x.lastlen }
      (.addEpollin, { s with pool := pool }.setPeer fd { p with ctx := x.ctx })
    | (.complete, _, x) =>
      recvDone cfg e fd i x.ctx p
        { s with pool := s.pool.store i n.base { n.sub with lastlen := x.lastlen } }

/-! ## 7. Sending and closing -/

/-- `svc_send`: whether the connection is to be closed. -/
def svcSend (e : Env) (fd : Fd) (p : Peer) (s : Storage) : Except Fault (Bool × Storage) :=
  match p.svc with
  | .up => .ok (false, s)
  | .data =>
    if p.sockStat = .sendfileing then
      match p.sendtask with
      | none => .error .nullDeref
      | some i =>
        let done : Bool := toInt64 (p.headlen + (s.pool.node i).sub.processlen) ≤ p.sendLen
        let overstatus := if done then OVER_OK else OVER_SEND_LEN
        .ok (!done || p.close, { s with pool := e.set i .fin (s.pool.over i overstatus) }.setPeer fd
          { p with sockStat := .idle, sendtask := none })
    else .ok (p.close, s)

/-- `real_rm_file`; an empty name names no file. -/
def realRmFile (file : Path) : List FsOp := if file = [] then [] else [.unlink file]

/-- `svc_finiconn` for the send task. -/
def finiSend (e : Env) (p : Peer) (s : Storage) : Storage :=
  match p.sendtask with
  | none => s
  | some i => { s with pool := e.set i .fin (s.pool.over i OVER_SEND_LEN) }

/-- `svc_finiconn` for the receive task. -/
def finiRecv (e : Env) (p : Peer) (s : Storage) : Storage :=
  match p.recvtask with
  | none => s
  | some i =>
    let s := s.log (realRmFile (s.pool.node i).base.tmpfile)
    match p.svc with
    | .data =>
      let pool := s.pool.modify i fun n =>
        { n with base := { n.base with retry := n.base.retry + 1 } }
      { s with pool := e.set i .wait pool }
    | .up => { s with pool := e.set i .fin (s.pool.over i OVER_UP_ERR) }

/-- `svc_finiconn` -/
def svcFiniconn (e : Env) (fd : Fd) (p : Peer) (s : Storage) : Storage :=
  let s := finiRecv e p (finiSend e p s)
  { s with conn := Function.update s.conn fd none, online := s.online.filter (· != fd) }

theorem finiSend_frame (e : Env) (p : Peer) (s : Storage) : (finiSend e p s).conn = s.conn ∧
    (finiSend e p s).toSig = { s.toSig with pool := (finiSend e p s).pool } ∧
    (finiSend e p s).timers = s.timers ∧ (finiSend e p s).fs = s.fs := by
  unfold finiSend
  split <;> exact ⟨rfl, rfl, rfl, rfl⟩

theorem finiRecv_frame (e : Env) (p : Peer) (s : Storage) : (finiRecv e p s).conn = s.conn ∧
    (finiRecv e p s).toSig = { s.toSig with pool := (finiRecv e p s).pool } ∧
    (finiRecv e p s).timers = s.timers := by
  unfold finiRecv
  split
  · exact ⟨rfl, rfl, rfl⟩
  · simp only
    split <;> exact ⟨rfl, rfl, rfl⟩

/-- Outcome of `send` or `sendfile64`: bytes were sent; nothing was, and `errno` is EAGAIN, with
    result -1 or 0; or anything else. -/
inductive SendRes where
  | sent (n : Nat)
  | again
  | zero
  | err
  deriving DecidableEq, Repr

inductive SendRet where
  | close
  | addEpollin
  | addEpollout
  deriving DecidableEq, Repr

/-- `do_send`, the bytes. -/
def sendData (r : SendRes) (p : Peer) : SendRet × Peer :=
  match mybuffGetdata p.sendBuff with
  | none => (.addEpollin, p)
  | some data =>
    match r with
    | .sent n =>
      (if n < data.length then .addEpollout else .addEpollin,
        { p with sendBuff := mybuffSkipdata p.sendBuff n, sendLen := toInt32 (p.sendLen + n) })
    | .again => (.addEpollout, p)
    | .zero => (.addEpollout, p)
    | .err => (.close, p)

/-- `svc_check_send`, which only the data service has, called when `sendfile64` sent nothing: the
    file must have kept its size. -/
def svcCheckSend (e : Env) (p : Peer) (s : Storage) : Bool :=
  match p.sendtask with
  | none => false
  | some i =>
    match e.fs.stat with
    | none => false
    | some (_, size) => size = (s.pool.node i).base.fsize

/-- `do_send`, the file range. -/
def sendFile (e : Env) (r : SendRes) (p : Peer) (s : Storage) : SendRet × Peer :=
  match mybuffGetfile p.sendBuff with
  | none => (.addEpollin, p)
  | some (_, _, len) =>
    match r with
    | .zero => (if p.svc = .up ∨ svcCheckSend e p s then .addEpollout else .close, p)
    | .sent n =>
      (if n < len then .addEpollout else .addEpollin,
        { p with sendBuff := mybuffSkipfile p.sendBuff n, sendLen := toInt32 (p.sendLen + n) })
    | .again => (.addEpollout, p)
    | .err => (.close, p)

/-- `do_send`: the bytes, then the file range, then `svc_send` when nothing is left. -/
def doSend (e : Env) (fd : Fd) (data file : SendRes) (p : Peer) (s : Storage) :
    Except Fault Storage :=
  let r := sendData data p
  let r := if r.1 = .addEpollin then sendFile e file r.2 s else r
  let p := r.2
  let s := s.setPeer fd p
  match r.1 with
  | .close => .ok (svcFiniconn e fd p s)
  | .addEpollout => .ok s
  | .addEpollin =>
    match svcSend e fd p s with
    | .error f => .error f
    | .ok (close, s) =>
      .ok (if close then (match s.conn fd with | some p => svcFiniconn e fd p s | none => s) else s)

/-! ## 8. `check_task` of the data service -/

/-- Move tasks from one queue to the end of another until there is none; `n` bounds their number. -/
def moveAll (envs : Nat → Env) (src dst : TaskQ) : Nat → Nat → Pool → Pool
  | 0, _, p => p
  | n + 1, k, p =>
    match (envs k).get src p with
    | none => p
    | some (i, p) => moveAll envs src dst n (k + 1) ((envs k).set i dst p)

namespace Storage

/-- `find_ip_stat(ip, &peer, CON_ACTIVE, IDLE)`. -/
def findIpStat (s : Storage) (ip : UInt32) : Option Fd :=
  s.online.find? fun fd =>
    match s.conn fd with
    | some p => p.ip == ip && p.mode == .active && p.sockStat == .idle
    | none => false

/-- `get_ip_connect_count` -/
def getIpConnectCount (s : Storage) (ip : UInt32) : Nat :=
  s.online.countP fun fd =>
    match s.conn fd with
    | some p => p.ip == ip && p.mode == .active
    | none => false

/-- `active_connect`; the system gives no descriptor that is in use. -/
def activeConnect (s : Storage) (e : Env) (ip : UInt32) : Storage :=
  match e.connect ip with
  | none => s
  | some (fd, peerip) =>
    if s.conn fd = none then
      { s.setPeer fd { Peer.init .data peerip with sockStat := .idle, mode := .active } with
        online := fd :: s.online }
    else s

/-- `base->overstatus = o; pfs_set_task(task, TASK_Q_FIN)`. -/
def finish (s : Storage) (e : Env) (i : NodeId) (o : UInt8) : Storage :=
  { s with pool := e.set i .fin (s.pool.over i o) }

/-- Back to wait, in the queue the next pass starts with. -/
def hangUp (s : Storage) (e : Env) (i : NodeId) : Storage :=
  let q := if (s.pool.node i).sub.needSync = .syncIsdir then TaskQ.syncDirTmp else .waitTmp
  { s with pool := e.set i q s.pool }

end Storage

theorem conn_of_findIpStat {s : Storage} {fd : Fd} {ip : UInt32} (h : s.findIpStat ip = some fd) :
    ∃ p, s.conn fd = some p ∧ p.mode = .active ∧ p.ip = ip ∧ p.sockStat = .idle := by
  have hsome := List.find?_some h
  split at hsome
  · rename_i p hp
    simp only [Bool.and_eq_true, beq_iff_eq] at hsome
    exact ⟨p, hp, hsome.1.2, hsome.1.1, hsome.2⟩
  · cases hsome

/-- The end of a round of `check_task`: the request is sent and the task belongs to the
    connection. -/
def dataRequest (e : Env) (i : NodeId) (fd : Fd) (p : Peer) (s : Storage) : Storage :=
  let n := s.pool.node i
  let pool := s.pool.store i n.base { n.sub with lastlen := 0 }
  { s with pool := e.set i .recv pool }.setPeer fd
    ({ p with sockStat := .prepareRecvfile, recvtask := some i }.say cfg
      (createSigMsg CMD_GET_FILE_REQ FILE_SYNC_DST_2_SRC n.base.bytes BASE_SIZE))

/-- With a connection that may take the task. -/
def dataTake (e : Env) (i : NodeId) (fd : Fd) (s : Storage) : Storage :=
  if cfg.pfsTest then s.finish e i OVER_OK
  else
    match s.conn fd with
    | none => s
    | some p => dataRequest cfg e i fd p s

def dataConnect (e : Env) (i : NodeId) (s : Storage) : Storage :=
  let ip := (s.pool.node i).sub.peerip
  match s.findIpStat ip with
  | some fd => dataTake cfg e i fd s
  | none =>
    if cfg.maxDataConnects < s.getIpConnectCount ip then s.hangUp e i
    else
      let s := s.activeConnect e ip
      match s.findIpStat ip with
      | none => s.hangUp e i
      | some fd => dataTake cfg e i fd s

def dataPlace (e : Env) (i : NodeId) (s : Storage) : Storage :=
  let n := s.pool.node i
  if n.sub.operType ≠ .getReq ∧ n.sub.operType ≠ .fromPoss then s.finish e i OVER_E_TYPE
  else
    let d := checkDiskSpace e.fs n.base
    let s := s.log d.2
    if d.1 ≠ .ok then
      let d := checkDiskSpace e.fsAgain n.base
      let s := s.log d.2
      if d.1 = .spaceTooSmall then s.hangUp e i else s.finish e i OVER_DISK_ERR
    else dataConnect cfg e i s

/-- A round of `check_task` for the task it got. -/
def dataCheckOne (e : Env) (i : NodeId) (s : Storage) : Except Fault Storage :=
  let n := s.pool.node i
  if cfg.retry < n.base.retry then .ok (s.finish e i OVER_TOO_MANY_TRY)
  else if 0 < n.base.fsize then
    match checkLocalfileMd5 nodePre cfg.datadir e.fs n.base with
    | .error f => .error f
    | .ok (ret, base, ops) =>
      let s := { s with pool := s.pool.store i base n.sub }.log ops
      if ret = .ok then .ok (s.finish e i OVER_OK) else .ok (dataPlace cfg e i s)
  else .ok (dataPlace cfg e i s)

/-- The next task: a waiting one, otherwise one of a directory. -/
def Env.getEither (e : Env) (q q' : TaskQ) (p : Pool) : Option (NodeId × Pool) :=
  match e.get q p with
  | some r => some r
  | none => e.get q' p

/-- The rounds of `check_task`. -/
def dataCheckLoop (envs : Nat → Env) : Nat → Nat → Storage → Except Fault Storage
  | 0, _, s => .ok s
  | n + 1, k, s =>
    match (envs k).getEither .wait .syncDir s.pool with
    | none => .ok s
    | some (i, pool) =>
      match dataCheckOne cfg (envs k) i { s with pool := pool } with
      | .error f => .error f
      | .ok s => dataCheckLoop envs n (k + 1) s

/-- `check_task` of the data service: fewer than `max_task_run_once` rounds. -/
def dataCheckTask (envs : Nat → Nat → Env) (s : Storage) : Except Fault Storage :=
  let pool := moveAll (envs 0) .waitTmp .wait (s.pool.q .waitTmp).length 0 s.pool
  let pool := moveAll (envs 1) .syncDirTmp .syncDir (pool.q .syncDirTmp).length 0 pool
  dataCheckLoop cfg (envs 2) (cfg.maxTaskRunOnce - 1) 0 { s with pool := pool }

end Pfs
