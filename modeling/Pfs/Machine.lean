/-
  One storage as a machine: everything its threads do, step by step.

  A step is one handler of one thread. The loop of `svc_recv` takes a step for every message it
  finds in the receive buffer (`recvMsg`) and for every look at file bytes (`recvData`); what the
  peers send is arbitrary. A step that dereferences NULL or overruns a buffer has no successor.
-/
import Pfs.Lib.Run
import Pfs.Signalling

namespace Pfs

open Lib

inductive Act where
  /-- a connection to the data or the upload service -/
  | accept (svc : Svc) (fd : Fd) (ip : UInt32)
  /-- `svc_recv` finds a message; `e'` is for the close that may follow -/
  | recvMsg (fd : Fd) (h : SigHead) (base : TaskBase) (e e' : Env)
  /-- `svc_recv` in RECVFILEING -/
  | recvData (fd : Fd) (b : Mybuff) (e e' : Env)
  | send (fd : Fd) (data file : SendRes) (e : Env)
  /-- the peer closes, or a timeout -/
  | close (fd : Fd) (e : Env)
  | dataCheck (envs : Nat → Nat → Env)
  | sigConnect (fd : Fd) (ip : UInt32)
  | sigClose (fd : Fd)
  | sigFlush (fd : Fd) (n : Nat)
  | newtask (fd : Fd) (h : SigHead) (base : TaskBase) (e : Env)
  | syncDirReq (fd : Fd) (req : List UInt8) (e : Env)
  | sigCheck (v : PassEnv)
  | syncDir (e : Env) (envs : Nat → Env) (files : Option (List DirFile))
  | timeout (e : Env)
  | clean (e : Env)
  | possFile (e : Env) (file : Path) (ip : UInt32)
  | possDir (e : Env) (file : Path) (starttime : Int)
  | timer (file : Path)

variable (cfg : Cfg)

/-- `svc_initconn` and `add_fd_2_efd`. -/
def Storage.accept (s : Storage) (svc : Svc) (fd : Fd) (ip : UInt32) : Storage :=
  if s.conn fd = none then
    { s.setPeer fd (.init svc ip) with
      online := if svc = .data then fd :: s.online else s.online }
  else s

/-- `do_close` -/
def Storage.doClose (s : Storage) (e : Env) (fd : Fd) : Storage :=
  match s.conn fd with
  | none => s
  | some p => svcFiniconn e fd p s

/-- The end of `do_recv`. -/
def afterRecv (e : Env) (fd : Fd) (r : RecvRet × Storage) : Storage :=
  if r.1 = .close then r.2.doClose e fd else r.2

/-- Run an operation of the signalling service. -/
def Storage.sig (s : Storage) (f : Sig → Sig) : Storage := { s with toSig := f s.toSig }

/-- `do_req` of the signalling service for NEWTASK_REQ. -/
def recvNewtask (fd : Fd) (h : SigHead) (base : TaskBase) (e : Env) (s : Storage) :
    Except Fault Storage :=
  match s.peers.find? fun p => p.fd == fd with
  | none => .ok s
  | some peer =>
    if h.bodylen ≠ BASE_SIZE then .ok (s.sig fun g => g.close fd)
    else doNewtask cfg e peer h base s

/-- One event of the three services; undefined behaviour is a fault. -/
def step (s : Storage) : Act → Except Fault Storage
  | .accept svc fd ip => .ok (s.accept svc fd ip)
  | .recvMsg fd h base e e' =>
    match s.conn fd with
    | none => .ok s
    | some p =>
      if p.sockStat = .recvfileing then .ok s
      else (doReq cfg e fd h base p s).map (afterRecv e' fd)
  | .recvData fd b e e' =>
    match s.conn fd with
    | none => .ok s
    | some p =>
      if p.sockStat = .recvfileing then .ok (afterRecv e' fd (recvFile cfg e fd b p s)) else .ok s
  | .send fd data file e =>
    match s.conn fd with
    | none => .ok s
    | some p => doSend e fd data file p s
  | .close fd e => .ok (s.doClose e fd)
  | .dataCheck envs => dataCheckTask cfg envs s
  | .sigConnect fd ip => .ok (s.sig fun g => g.connect fd ip)
  | .sigClose fd => .ok (s.sig fun g => g.close fd)
  | .sigFlush fd n => .ok (s.sig fun g => g.flush fd n)
  | .newtask fd h base e => recvNewtask cfg fd h base e s
  | .syncDirReq fd req e =>
    .ok (match s.peers.find? fun p => p.fd == fd with
      | none => s
      | some peer => s.sig (doSyncDirReq e peer req))
  | .sigCheck v => .ok (s.sig (sigCheckTask cfg v))
  | .syncDir e envs files => .ok (s.sig (syncDirTask e envs files))
  | .timeout e => .ok (s.sig (doTimeoutTask cfg e))
  | .clean e => .ok (s.sig (cleanTask e))
  | .possFile e file ip => .ok (s.sig (doPossSyncFile cfg e file ip))
  | .possDir e file starttime => .ok (s.sig (doPossSyncDir e file starttime))
  | .timer file =>
    .ok (if file ∈ s.timers then
      { s.log (realRmFile file) with timers := s.timers.erase file } else s)

/-- The machine: a step that faults has no successor. -/
def next (s : Storage) (a : Act) : Option Storage := (step cfg s a).toOption

theorem next_eq_some {cfg : Cfg} {s t : Storage} {a : Act} :
    next cfg s a = some t ↔ step cfg s a = .ok t := by
  unfold next
  cases step cfg s a <;> simp [Except.toOption]

/-! ## 2. Rules for handlers that may fault -/

section Rules

variable {cfg : Cfg} {e : Env} {fd : Fd} {p : Peer} {s : Storage}

theorem sendData_peer (r : SendRes) (p : Peer) :
    ∃ b n, (sendData r p).2 = { p with sendBuff := b, sendLen := n } := by
  unfold sendData
  split
  · exact ⟨_, _, rfl⟩
  · split <;> exact ⟨_, _, rfl⟩

theorem sendFile_peer (r : SendRes) (p : Peer) :
    ∃ b n, (sendFile e r p s).2 = { p with sendBuff := b, sendLen := n } := by
  unfold sendFile
  split
  · exact ⟨_, _, rfl⟩
  · split <;> exact ⟨_, _, rfl⟩

/-- **The rule for `do_send`:** what holds with the buffer sent from, and what `svc_send` and the
    end of the connection keep. -/
theorem doSend_outcome {E : Fault → Prop} {Q : Storage → Prop} {data file : SendRes}
    (hsent : ∀ b n, Q (s.setPeer fd { p with sendBuff := b, sendLen := n }))
    (hsvc : ∀ p t, t.conn fd = some p → Q t → Outcome E (fun r => Q r.2) (svcSend e fd p t))
    (hfini : ∀ p t, t.conn fd = some p → Q t → Q (svcFiniconn e fd p t)) :
    Outcome E Q (doSend e fd data file p s) := by
  have hpeer : ∃ b n, (if (sendData data p).1 = .addEpollin then
      sendFile e file (sendData data p).2 s else sendData data p).2 =
        { p with sendBuff := b, sendLen := n } := by
    obtain ⟨b, n, hdata⟩ := sendData_peer data p
    split
    · obtain ⟨b', n', hfile⟩ := @sendFile_peer e s file (sendData data p).2
      exact ⟨b', n', by rw [hfile, hdata]⟩
    · exact ⟨b, n, hdata⟩
  obtain ⟨b, n, hpeer⟩ := hpeer
  have hset := hsent b n
  have hconn (p' : Peer) : (s.setPeer fd p').conn fd = some p' := Function.update_self _ _ _
  rw [← hpeer] at hset
  unfold doSend
  simp only
  split
  · exact hfini _ _ (hconn _) hset
  · exact hset
  split
  · rename_i hs
    exact (hsvc _ _ (hconn _) hset).of_error hs
  rename_i hs
  have hafter := (hsvc _ _ (hconn _) hset).of_ok hs
  show Q _
  split
  · split
    · rename_i hp
      exact hfini _ _ hp hafter
    · exact hafter
  · exact hafter

/-- **The rule for the rounds of `check_task`:** what every round keeps. -/
theorem dataCheckLoop_outcome {E : Fault → Prop} {Q : Storage → Prop} {envs : Nat → Env} {n k : Nat}
    (hone : ∀ k i pool s, Q s → (envs k).getEither .wait .syncDir s.pool = some (i, pool) →
      Outcome E Q (dataCheckOne cfg (envs k) i { s with pool := pool })) (hs : Q s) :
    Outcome E Q (dataCheckLoop cfg envs n k s) := by
  induction n generalizing k s with
  | zero => exact hs
  | succ n ih =>
    unfold dataCheckLoop
    split
    · exact hs
    rename_i i pool hget
    split
    · rename_i ho
      exact (hone k i pool s hs hget).of_error ho
    · rename_i ho
      exact ih ((hone k i pool s hs hget).of_ok ho)

end Rules

/-! ## 3. A small storage, for runs on fixed inputs -/

/-- "/d" in a domain of three members. -/
def smallCfg : Cfg where
  datadir := ascii "/d"
  selfIp := 1
  domain := ascii "dom"
  members := [⟨1, false⟩, ⟨2, false⟩, ⟨3, false⟩]
  retry := 3
  maxTaskRunOnce := 8
  maxDataConnects := 4
  taskTimeout := 60
  checkTaskTimeout := true
  pfsTest := false
  initBuffSize := 16

/-- File operations that succeed; no file has a digest yet. -/
def smallFs : FsEnv where
  access := fun _ => true
  mkdir := fun _ => true
  openTmp := some 7
  enoent := false
  reopen := none
  openRead := some 8
  stat := some (0, 0)
  filemd5 := none
  rename := true
  diskfree := some true
  strtime := 20130101000000

/-- Everything succeeds at time `now`. -/
def smallEnv (now : Int) : Env where
  now := now
  getLock := fun _ => true
  setLock := fun _ => true
  malloc := true
  pre := [0]
  fs := smallFs
  fsAgain := smallFs
  write := fun k => k
  behind := 0
  errmsg := []
  maxFree := (1, 2)
  connect := fun _ => none
  selfOffline := false

/-- A whole record of the given type for the given file. -/
def smallBase (type : UInt8) (filename : Path) : TaskBase :=
  { TaskBase.zero with type := type, filename := filename, fsize := 2 }

def baseHead (cmdid status : UInt8) : SigHead := ⟨BASE_SIZE, cmdid, status⟩

end Pfs
