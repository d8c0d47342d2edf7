/-
  `sock_stat` against the two tasks of a connection, over all runs.

  A connection that prepares to receive or receives has a receive task, one that sends has a send
  task. `do_push_task` sets `sock_stat` before it knows that there will be a task, and a file that
  fails its check takes the task away without changing `sock_stat`.

  Main results: `connInv_of_run`, `connInv_fails_after_delete`.
-/
import Pfs.Machine

namespace Pfs

open Lib

variable {cfg : Cfg}

/-! ## 1. The invariant -/

/-- The tasks a connection has, for its `sock_stat`. -/
def ConnOk (p : Peer) : Prop :=
  (p.sockStat = .prepareRecvfile ∨ p.sockStat = .recvfileing → p.recvtask ≠ none) ∧
    (p.sockStat = .sendfileing → p.sendtask ≠ none)

def ConnInv (s : Storage) : Prop := ∀ fd p, s.conn fd = some p → ConnOk p

variable {p : Peer} {fd : Fd} {s t : Storage} {e : FsEnv} {pre datadir : Path} {base : TaskBase}
variable {f : Fault}

theorem connOk_of_idle (h : p.sockStat = .idle ∨ p.sockStat = .connected) : ConnOk p := by
  rcases h with h | h
  · exact ⟨fun hs => by simp [h] at hs, fun hs => by simp [h] at hs⟩
  · exact ⟨fun hs => by simp [h] at hs, fun hs => by simp [h] at hs⟩

theorem conn_of_update {conn : Fd → Option Peer} {g : Fd} {o : Option Peer} {q : Peer}
    (h : Function.update conn fd o g = some q) :
    g = fd ∧ o = some q ∨ g ≠ fd ∧ conn g = some q := by
  by_cases hg : g = fd
  · subst hg
    rw [Function.update_self] at h
    exact .inl ⟨rfl, h⟩
  · rw [Function.update_of_ne hg] at h
    exact .inr ⟨hg, h⟩

theorem ConnInv.setPeer (h : ConnInv s) (hp : ConnOk p) : ConnInv (s.setPeer fd p) := by
  intro g q hq
  rcases conn_of_update hq with ⟨-, he⟩ | ⟨-, hold⟩
  · cases he
    exact hp
  · exact h g q hold

theorem ConnInv.of_conn (h : ConnInv s) (hc : t.conn = s.conn) : ConnInv t := by
  intro fd p hp
  rw [hc] at hp
  exact h fd p hp

/-! ## 2. Conditions -/

/-- The temporary file can be opened, directly or once its directories have been made. -/
def FsEnv.Opens (e : FsEnv) : Prop :=
  e.openTmp ≠ none ∨ e.enoent = false ∨ (∀ d, e.access d = true ∨ e.mkdir d = true) ∧
    e.reopen ≠ none

/-- A task can be taken from TASK_Q_HOME. -/
def HomeOpen (e : Env) (s : Storage) : Prop :=
  e.getLock .home = true ∧ (s.pool.q .home ≠ [] ∨ e.malloc = true)

/-- A CMD_PUT_FILE_REQ that is not a delete, finds a free node and can open its file; or the
    upload service's query. -/
def PushHolds (e : Env) (h : SigHead) (base : TaskBase) (p : Peer) (s : Storage) : Prop :=
  p.svc = .up ∧ base.type = TASK_DELFILE ∧ h.status = ADD_QUERY_DIR ∨
    base.type ≠ TASK_DELFILE ∧ HomeOpen e s ∧ e.fs.Opens ∧
      (slash ∈ base.filename ∨ h.status = ADD_PATH_BY_STORAGE ∧ base.type = TASK_ADDFILE ∨
        p.svc = .up ∧ h.status = ADD_PATH_BY_BNAME)

/-- The temporary file is open and has the announced digest, and it can be renamed; or `write`
    fails. -/
def FileHolds (e : Env) (p : Peer) (s : Storage) : Prop :=
  (∀ k, toInt32 (e.write k) < 0) ∨
    0 ≤ p.localInFd ∧ e.fs.rename = true ∧
      ∀ i, p.recvtask = some i → ∃ md5, e.fs.filemd5 = some md5 ∧
        md5 ++ [0] = (s.pool.node i).base.filemd5

/-- Every push and every part of a file goes well. -/
def PushesHold (s : Storage) : Act → Prop
  | .recvMsg fd h base e _ =>
    ∀ p, s.conn fd = some p → h.cmdid = CMD_PUT_FILE_REQ → PushHolds e h base p s
  | .recvData fd _ e _ => ∀ p, s.conn fd = some p → FileHolds e p s
  | _ => True

/-- A computation ends in what `Q` says, or because a path is too long for its buffer. -/
def Safely {α : Type} (Q : α → Prop) : Except Fault α → Prop := Outcome (· = .overflow) Q

/-! ## 3. The file operations -/

theorem mkdirs_of_opens (h : ∀ d, e.access d = true ∨ e.mkdir d = true)
    (ds : List Path) : (mkdirs e ds).1 = none := by
  induction ds with
  | nil => rfl
  | cons d ds ih =>
    unfold mkdirs
    by_cases ha : e.access d = true
    · rw [if_pos ha, ih]
    · have hm := (h d).resolve_left ha
      rw [if_neg ha, if_pos hm, ih]

theorem openTmp_of_opens (h : e.Opens) (filename tmpfile : Path) :
    (openTmp e filename tmpfile).1 = .ok := by
  unfold openTmp
  cases ho : e.openTmp with
  | some fd => rfl
  | none =>
    cases hn : e.enoent with
    | false => rfl
    | true =>
      obtain ⟨hdirs, hre⟩ := (h.resolve_left (fun hne => hne ho)).resolve_left (by simp [hn])
      obtain ⟨fd, hfd⟩ := Option.ne_none_iff_exists'.mp hre
      have hmade : ∀ dir : Path,
          (if e.access dir = true then (none, []) else createdir e dir).1 = none := by
        intro dir
        split
        · rfl
        · exact mkdirs_of_opens hdirs _
      simp only [if_true, hmade, hfd]

theorem openTmpLocalfile4Write_of_opens {g : Nat}
    {r : LocalRet × Option Int × TaskBase × Nat × List FsOp} (he : e.Opens)
    (hs : slash ∈ base.filename) (h : openTmpLocalfile4Write pre datadir e g base = .ok r) :
    r.1 = .ok := by
  unfold openTmpLocalfile4Write at h
  split at h
  · cases h
  · rename_i hnone
    exact absurd hs (storageConvert_none hnone)
  simp only at h
  split at h
  · cases h
  · cases h
    exact openTmp_of_opens he _ _

theorem storageConvert_fault {filename : Path}
    (h : storageConvert pre datadir filename = .error f) : f = .overflow := by
  unfold storageConvert at h
  split at h
  · cases h
  simp only at h
  split at h
  · cases h
    rfl
  · cases h

theorem openTmpLocalfile4Write_fault {g : Nat}
    (h : openTmpLocalfile4Write pre datadir e g base = .error f) : f = .overflow := by
  unfold openTmpLocalfile4Write at h
  split at h
  · rename_i hc
    cases h
    exact storageConvert_fault hc
  · cases h
  · simp only at h
    split at h
    · cases h
      rfl
    · cases h

theorem deleteLocalfile_fault (h : deleteLocalfile pre datadir e base = .error f) :
    f = .overflow := by
  unfold deleteLocalfile at h
  split at h
  · rename_i hc
    cases h
    exact storageConvert_fault hc
  · cases h
  · simp only at h
    split at h <;> cases h

theorem checkLocalfileMd5_fault
    (h : checkLocalfileMd5 pre datadir e base = .error f) : f = .overflow := by
  unfold checkLocalfileMd5 at h
  split at h
  · rename_i hc
    cases h
    exact storageConvert_fault hc
  · cases h
  · cases h

theorem pushName_fault {e : Env} {svc : Svc} {h : SigHead} {k : Nat}
    (he : pushName cfg e svc h base k = .error f) : f = .overflow := by
  unfold pushName at he
  split at he
  · unfold getLocalFilename at he
    simp only at he
    split at he
    · cases he
      rfl
    · cases he
  · split at he <;> cases he

theorem slash_mem_pushName {e : Env} {h : SigHead} {k k' : Nat}
    {name : Path} (hb : base.type ≠ TASK_DELFILE)
    (hs : slash ∈ base.filename ∨ h.status = ADD_PATH_BY_STORAGE ∧ base.type = TASK_ADDFILE ∨
      p.svc = .up ∧ h.status = ADD_PATH_BY_BNAME)
    (hn : pushName cfg e p.svc h base k = .ok (name, k')) : slash ∈ name := by
  have hhead (x : Path) : slash ∈ (storageDirs e.maxFree.1 e.maxFree.2 ++ x).take 255 := by
    unfold storageDirs
    rw [List.cons_append, List.cons_append, List.take_succ_cons]
    exact List.mem_cons_self
  unfold pushName at hn
  split at hn
  · unfold getLocalFilename at hn
    simp only at hn
    split at hn
    · cases hn
    · cases hn
      exact hhead _
  · rename_i hst
    split at hn
    · cases hn
      exact hhead _
    rename_i hbn
    cases hn
    rcases hs with hs | hs | hs
    · exact hs
    · exact absurd ⟨hb, hs⟩ hst
    · exact absurd ⟨hb, hs⟩ hbn

/-! ## 4. The handlers

A handler changes the connection it runs for, `fd`. When it answers "close" the connection is about
to end, and its own state no longer matters. -/

/-- What a handler of the connection `fd`, which was `p`, has done to the connections. It kept the
    address, and `Q` holds of what it made of `p`. -/
structure Touches (fd : Fd) (p : Peer) (Q : Peer → Prop) (s t : Storage) : Prop where
  online : t.online = s.online
  conn : t.conn = s.conn ∨
    ∃ p', t.conn = Function.update s.conn fd (some p') ∧ p'.mode = p.mode ∧ p'.ip = p.ip ∧ Q p'

/-- What a handler does. `C` is asked for it to leave a connection that is in order; without a task
    in order before, it may dereference NULL. -/
def ServesPeer (fd : Fd) (p : Peer) (C : Prop) (s : Storage) :
    Except Fault (RecvRet × Storage) → Prop :=
  Outcome (fun f => ConnOk p → f = .overflow) fun r =>
    Touches fd p (fun p' => ConnOk p → C → r.1 ≠ .close → ConnOk p') s r.2

/-- The invariant, but for the connection `fd`. -/
def ConnInvBut (fd : Fd) (s : Storage) : Prop := ∀ g p, g ≠ fd → s.conn g = some p → ConnOk p

theorem ConnInv.but (h : ConnInv s) (fd : Fd) : ConnInvBut fd s :=
  fun g p _ hp => h g p hp

theorem Touches.mono {Q Q' : Peer → Prop} (h : Touches fd p Q s t) (hq : ∀ p', Q p' → Q' p') :
    Touches fd p Q' s t := by
  refine ⟨h.online, h.conn.imp_right ?_⟩
  rintro ⟨p', hc, hm, ha, hp⟩
  exact ⟨p', hc, hm, ha, hq p' hp⟩

theorem Touches.connInv {Q : Peer → Prop} (h : Touches fd p Q s t) (hi : ConnInv s) :
    ConnInvBut fd t ∧ ((∀ p', Q p' → ConnOk p') → ConnInv t) := by
  rcases h.conn with hc | ⟨p', hc, -, -, hq⟩
  · exact ⟨(hi.of_conn hc).but fd, fun _ => hi.of_conn hc⟩
  refine ⟨fun g q hg hgq => ?_, fun hok => (hi.setPeer (hok p' hq)).of_conn hc⟩
  rw [hc, Function.update_of_ne hg] at hgq
  exact hi g q hgq

section Handlers

variable {e : Env} {fd : Fd} {h : SigHead} {base : TaskBase} {p : Peer} {s : Storage} {C : Prop}

theorem doRecvTask_serves : ServesPeer fd p C s (doRecvTask cfg e fd h base p s) := by
  unfold doRecvTask
  split
  · exact ⟨rfl, .inl rfl⟩
  rename_i hst
  split
  · rename_i hnone
    exact fun hp => absurd hnone (hp.1 (.inl (not_not.mp hst)))
  rename_i i hrecv
  split
  · exact ⟨rfl, .inr ⟨_, rfl, rfl, rfl, fun _ _ hne => absurd rfl hne⟩⟩
  simp only
  split
  · rename_i ho
    exact fun _ => openTmpLocalfile4Write_fault ho
  split
  · exact ⟨rfl, .inr ⟨_, rfl, rfl, rfl, fun _ _ hne => absurd rfl hne⟩⟩
  · refine ⟨rfl, .inr ⟨_, rfl, rfl, rfl, fun _ _ _ => ⟨fun _ => ?_, fun hs => by cases hs⟩⟩⟩
    simp [hrecv]

theorem doSendTask_touches :
    Touches fd p (fun p' => ConnOk p → ConnOk p') s (doSendTask cfg e fd base p s) := by
  have hrsp (status : UInt8) (b : TaskBase) (hp : ConnOk p) :
    ConnOk (sendRsp cfg status b { p with sendLen := 0 }) := hp
  unfold doSendTask
  simp only
  split
  · exact ⟨rfl, .inr ⟨_, rfl, rfl, rfl, hrsp _ _⟩⟩
  split
  · exact ⟨rfl, .inr ⟨_, rfl, rfl, rfl, hrsp _ _⟩⟩
  split
  · exact ⟨rfl, .inr ⟨_, rfl, rfl, rfl, hrsp _ _⟩⟩
  · refine ⟨rfl, .inr ⟨_, rfl, rfl, rfl, fun _ => ⟨fun hs => ?_, fun _ hn => by cases hn⟩⟩⟩
    rcases hs with hs | hs <;> cases hs

theorem get_home_of_homeOpen (hh : HomeOpen e s) : e.get .home s.pool ≠ none := by
  obtain ⟨hlock, hq⟩ := hh
  unfold Env.get pfsGetTask
  rw [if_pos hlock]
  cases hl : s.pool.q .home with
  | nil =>
    have hm := hq.resolve_left fun hne => hne hl
    simp [hm]
  | cons i is => simp

theorem pushBase_filename (b : TaskBase) : (pushBase e p b).filename = b.filename := by
  unfold pushBase
  split <;> rfl

theorem doPushTask_serves :
    ServesPeer fd p (PushHolds e h base p s) s (doPushTask cfg e fd h base p s) := by
  unfold doPushTask
  split
  · exact ⟨rfl, .inr ⟨_, rfl, rfl, rfl, fun hp _ _ => hp⟩⟩
  rename_i hquery
  unfold pushTask
  simp only
  split
  · rename_i hget
    refine ⟨rfl, .inr ⟨_, rfl, rfl, rfl, fun _ hh => ?_⟩⟩
    exact absurd hget (get_home_of_homeOpen (hh.resolve_left hquery).2.1)
  split
  · rename_i hn
    exact fun _ => pushName_fault hn
  rename_i hn
  split
  · rename_i hdel
    unfold pushDelete
    split
    · rename_i hd
      exact fun _ => deleteLocalfile_fault hd
    · exact ⟨rfl, .inr ⟨_, rfl, rfl, rfl, fun _ hh => absurd hdel (hh.resolve_left hquery).1⟩⟩
  unfold pushOpen
  simp only [base_create]
  split
  · rename_i ho
    exact fun _ => openTmpLocalfile4Write_fault ho
  rename_i ho
  split
  · rename_i hret
    refine ⟨rfl, .inr ⟨_, rfl, rfl, rfl, fun _ hh => ?_⟩⟩
    obtain ⟨hdel, -, hopen, hname⟩ := hh.resolve_left hquery
    refine absurd (openTmpLocalfile4Write_of_opens hopen ?_ ho) hret
    rw [pushBase_filename]
    exact slash_mem_pushName hdel hname hn
  · exact ⟨rfl, .inr ⟨_, rfl, rfl, rfl,
      fun _ _ _ => ⟨fun _ hn => (by cases hn), fun hs => (by cases hs)⟩⟩⟩

theorem doReq_serves : ServesPeer fd p (h.cmdid = CMD_PUT_FILE_REQ → PushHolds e h base p s) s
    (doReq cfg e fd h base p s) := by
  unfold doReq
  split
  · split
    · exact ⟨rfl, .inl rfl⟩
    · exact doRecvTask_serves
  split
  · split
    · exact ⟨rfl, .inl rfl⟩
    · exact doSendTask_touches.mono fun _ hq hp _ _ => hq hp
  split
  · rename_i hput
    split
    · exact ⟨rfl, .inl rfl⟩
    · exact Outcome.mono doPushTask_serves fun _ hr => hr.mono fun _ hq hp hh => hq hp (hh hput)
  · exact ⟨rfl, .inl rfl⟩

theorem closeTmpCheckMv_ok {e : FsEnv} {b : TaskBase} {lfd : Int} {digest md5 : List UInt8}
    (hfd : 0 ≤ lfd) (hren : e.rename = true) (hmd5 : e.filemd5 = some md5)
    (heq : md5 ++ [0] = b.filemd5) : (closeTmpCheckMv e b lfd digest).1 = .ok := by
  have hcheck : checkDigest e b = .ok := by
    unfold checkDigest
    rw [hmd5]
    exact if_pos heq
  unfold closeTmpCheckMv
  rw [if_neg (by omega)]
  simp [hcheck, hren]

theorem svcRecvFile_ret {b : Mybuff} {x : Incoming Md5Context} {ret : FileRet} {b' : Mybuff}
    {x' : Incoming Md5Context} (hw : ∀ k, toInt32 (e.write k) < 0)
    (hr : svcRecvFile md5 e.write b x = (ret, b', x')) : ret ≠ .complete := by
  unfold svcRecvFile at hr
  split at hr
  · cases hr
    intro hc
    cases hc
  unfold afterWrite at hr
  simp only [if_pos (hw _)] at hr
  cases hr
  intro hc
  cases hc

theorem recvFile_touches {b : Mybuff} :
    Touches fd p (fun p' => ConnOk p → FileHolds e p s →
      ConnOk p') s (recvFile cfg e fd b p s).2 := by
  unfold recvFile
  split
  · exact ⟨rfl, .inl rfl⟩
  rename_i i hrecv
  simp only
  split
  · exact ⟨rfl, .inl rfl⟩
  · split <;> exact ⟨rfl, .inr ⟨_, rfl, rfl, rfl, fun hp _ => hp⟩⟩
  · exact ⟨rfl, .inr ⟨_, rfl, rfl, rfl, fun hp _ => hp⟩⟩
  rename_i hfile
  unfold recvDone
  simp only
  split
  · rename_i hbad
    refine ⟨rfl, .inr ⟨_, rfl, ?_, ?_, fun _ hh => absurd ?_ hbad⟩⟩
    · split <;> rfl
    · split <;> rfl
    · rcases hh with hw | ⟨hfd, hren, hmd5⟩
      · exact absurd rfl (svcRecvFile_ret hw hfile)
      obtain ⟨md5', hget, heq⟩ := hmd5 i hrecv
      refine closeTmpCheckMv_ok hfd hren hget ?_
      simpa [Pool.store, Pool.modify] using heq
  · refine ⟨rfl, .inr ⟨_, rfl, ?_, ?_, fun _ _ => connOk_of_idle (.inl rfl)⟩⟩
    · simp only
      split <;> rfl
    · simp only
      split <;> rfl

/-! ## 5. Sending and closing -/

theorem svcFiniconn_inv (hi : ConnInvBut fd s) : ConnInv (svcFiniconn e fd p s) := by
  intro g q hq
  have hq' : Function.update s.conn fd none g = some q := by
    rw [← hq, svcFiniconn, (finiRecv_frame _ _ _).1, (finiSend_frame _ _ _).1]
  rcases conn_of_update hq' with ⟨-, he⟩ | ⟨hg, hold⟩
  · cases he
  · exact hi g q hg hold

theorem doClose_inv (hi : ConnInvBut fd s) : ConnInv (s.doClose e fd) := by
  unfold Storage.doClose
  split
  · rename_i hnone
    intro g q hq
    refine hi g q (fun hg => ?_) hq
    rw [hg, hnone] at hq
    cases hq
  · exact svcFiniconn_inv hi

theorem afterRecv_inv {r : RecvRet × Storage} (hbut : ConnInvBut fd r.2)
    (hi : r.1 ≠ .close → ConnInv r.2) : ConnInv (afterRecv e fd r) := by
  unfold afterRecv
  split
  · exact doClose_inv hbut
  · rename_i hne
    exact hi hne

theorem svcSend_touches : Outcome (fun f => ConnOk p → f = .overflow)
    (fun r => Touches fd p (fun p' => ConnOk p → ConnOk p') s r.2) (svcSend e fd p s) := by
  unfold svcSend
  split
  · exact ⟨rfl, .inl rfl⟩
  split
  · rename_i hst
    split
    · rename_i hnone
      exact fun hp => absurd hnone (hp.2 hst)
    · exact ⟨rfl, .inr ⟨_, rfl, rfl, rfl, fun _ => connOk_of_idle (.inl rfl)⟩⟩
  · exact ⟨rfl, .inl rfl⟩

theorem doSend_safely {data file : SendRes} (hi : ConnInv s) (hp : ConnOk p) :
    Safely ConnInv (doSend e fd data file p s) := by
  refine doSend_outcome (fun _ _ => hi.setPeer hp) (fun p t hp ht => ?_)
    fun _ _ _ ht => svcFiniconn_inv (ht.but fd)
  have hok := ht fd p hp
  exact Outcome.imp svcSend_touches (fun _ hf => hf hok) fun r hr =>
    (hr.connInv ht).2 fun _ hq => hq hok

/-! ## 6. `check_task` -/

variable {i : NodeId}

/-- What `check_task` does to the connections: it opens some, and gives a task to some that are
    idle. `Q` is kept. -/
structure CheckKeeps (cfg : Cfg) (Q : (Fd → Option Peer) → Prop) : Prop where
  opened : ∀ {conn fd} ip, Q conn → conn fd = none →
    Q (Function.update conn fd
      (some { Peer.init .data ip with sockStat := .idle, mode := .active }))
  asked : ∀ {conn fd p} i msg, Q conn → conn fd = some p → p.sockStat = .idle →
    Q (Function.update conn fd
      (some (Peer.say cfg { p with sockStat := .prepareRecvfile, recvtask := some i } msg)))

section Check

variable {Q : (Fd → Option Peer) → Prop} (hQ : CheckKeeps cfg Q)

include hQ

theorem CheckKeeps.activeConnect {ip : UInt32} (hs : Q s.conn) : Q (s.activeConnect e ip).conn := by
  unfold Storage.activeConnect
  split
  · exact hs
  split
  · rename_i hnone
    exact hQ.opened _ hs hnone
  · exact hs

theorem CheckKeeps.dataTake {ip : UInt32} (hs : Q s.conn) (hf : s.findIpStat ip = some fd) :
    Q (dataTake cfg e i fd s).conn := by
  unfold Pfs.dataTake
  split
  · exact hs
  split
  · exact hs
  rename_i hp
  obtain ⟨q, hq, -, -, hidle⟩ := conn_of_findIpStat hf
  cases hp.symm.trans hq
  exact hQ.asked i _ hs hp hidle

theorem CheckKeeps.dataConnect (hs : Q s.conn) : Q (dataConnect cfg e i s).conn := by
  unfold Pfs.dataConnect
  simp only
  split
  · rename_i hf
    exact hQ.dataTake hs hf
  split
  · exact hs
  have hopen : Q (s.activeConnect e (s.pool.node i).sub.peerip).conn := hQ.activeConnect hs
  split
  · exact hopen
  · rename_i hf
    exact hQ.dataTake hopen hf

theorem CheckKeeps.dataPlace (hs : Q s.conn) : Q (dataPlace cfg e i s).conn := by
  unfold Pfs.dataPlace
  simp only
  split
  · exact hs
  split
  · split <;> exact hs
  · exact hQ.dataConnect hs

theorem CheckKeeps.dataCheckOne (hs : Q s.conn) :
    Safely (fun t => Q t.conn) (dataCheckOne cfg e i s) := by
  unfold Pfs.dataCheckOne
  simp only
  split
  · exact hs
  split
  · split
    · rename_i hc
      exact checkLocalfileMd5_fault hc
    split
    · exact hs
    · exact hQ.dataPlace hs
  · exact hQ.dataPlace hs

theorem CheckKeeps.dataCheckTask {envs : Nat → Nat → Env} (hs : Q s.conn) :
    Safely (fun t => Q t.conn) (dataCheckTask cfg envs s) :=
  dataCheckLoop_outcome (fun _ _ _ _ hs _ => hQ.dataCheckOne hs) hs

end Check

theorem connInv_checkKeeps :
    CheckKeeps cfg fun conn => ConnInv { Storage.init with conn := conn } where
  opened := fun _ h _ => h.setPeer (connOk_of_idle (.inl rfl))
  asked := fun _ _ h _ _ => h.setPeer ⟨fun _ hn => (by cases hn), fun hs => (by cases hs)⟩

theorem recvNewtask_safely :
    Safely (fun t => t.conn = s.conn ∧ t.online = s.online) (recvNewtask cfg fd h base e s) := by
  unfold recvNewtask
  split
  · exact ⟨rfl, rfl⟩
  split
  · exact ⟨rfl, rfl⟩
  unfold doNewtask
  simp only
  split
  · exact ⟨rfl, rfl⟩
  split
  · exact ⟨rfl, rfl⟩
  unfold newtaskNode
  split
  · split
    · rename_i hd
      exact deleteLocalfile_fault hd
    · exact ⟨rfl, rfl⟩
  · split
    · rename_i hc
      exact checkLocalfileMd5_fault hc
    · simp only
      split <;> exact ⟨rfl, rfl⟩

/-- The steps of the services with connections. -/
def Act.onConns : Act → Bool
  | .accept .. | .recvMsg .. | .recvData .. | .send .. | .close .. | .dataCheck .. => true
  | _ => false

theorem step_conns {a : Act} (ha : a.onConns = false) :
    Safely (fun t => t.conn = s.conn ∧ t.online = s.online) (step cfg s a) := by
  cases a with
  | accept | recvMsg | recvData | send | close | dataCheck => cases ha
  | newtask fd h base e => exact recvNewtask_safely
  | syncDirReq | timer =>
    simp only [step]
    split <;> exact ⟨rfl, rfl⟩
  | _ => exact ⟨rfl, rfl⟩

end Handlers

/-! ## 7. Steps and runs -/

/-- A step that meets the condition keeps the invariant. Whatever the message and the outcomes, the
    only fault a step can end in is a path too long for its buffer. -/
theorem step_safely {a : Act} (hi : ConnInv s) :
    Safely (fun t => PushesHold s a → ConnInv t) (step cfg s a) := by
  cases a with
  | accept svc fd ip =>
    intro _
    unfold Storage.accept
    split
    · exact (hi.setPeer (connOk_of_idle (.inr rfl))).of_conn rfl
    · exact hi
  | recvMsg fd h base e e' =>
    simp only [step]
    split
    · exact fun _ => hi
    rename_i p hp
    split
    · exact fun _ => hi
    have hok := hi fd p hp
    refine Outcome.map (Outcome.imp doReq_serves (fun _ hf => hf hok) fun _ => id) fun r hr ha => ?_
    exact afterRecv_inv (hr.connInv hi).1 fun hne =>
      (hr.connInv hi).2 fun _ hq => hq hok (ha p hp) hne
  | recvData fd b e e' =>
    simp only [step]
    split
    · exact fun _ => hi
    rename_i p hp
    split
    · intro ha
      obtain ⟨hbut, hinv⟩ := (@recvFile_touches cfg e fd p s b).connInv hi
      exact afterRecv_inv hbut fun _ => hinv fun _ hq => hq (hi fd p hp) (ha p hp)
    · exact fun _ => hi
  | send fd data file e =>
    simp only [step]
    split
    · exact fun _ => hi
    · rename_i p hp
      exact (doSend_safely hi (hi fd p hp)).mono fun _ ht _ => ht
  | close fd e => exact fun _ => doClose_inv (hi.but fd)
  | dataCheck envs =>
    exact (connInv_checkKeeps.dataCheckTask hi).mono fun _ ht _ => ht
  | _ => exact (step_conns rfl).mono fun _ ht _ => hi.of_conn ht.1

theorem connInv_init : ConnInv Storage.init := fun _ _ h => by cases h

/-- **`sock_stat` agrees with the tasks of every connection** in every state that a run of steps
    under `PushesHold` reaches, and whatever step comes next does not dereference NULL. -/
theorem connInv_of_run {s : Storage} (h : Run (next cfg) PushesHold Storage.init s) :
    ConnInv s ∧ ∀ a, step cfg s a ≠ .error .nullDeref := by
  have hi : ConnInv s := by
    refine Run.inv connInv_init (fun s t a hi ha hs => ?_) h
    exact (step_safely hi).of_ok (next_eq_some.mp hs) ha
  refine ⟨hi, fun a ha => ?_⟩
  cases (step_safely hi).of_error ha

def announce : List Act :=
  [.accept .up 3 5,
    .recvMsg 3 (baseHead CMD_PUT_FILE_REQ 1) (smallBase TASK_ADDFILE (ascii "/1/a")) (smallEnv 9)
      (smallEnv 9)]

theorem connInv_of_announce : ∃ s p, exec (next smallCfg) Storage.init announce = some s ∧
    s.conn 3 = some p ∧ p.sockStat = .recvfileing ∧ ConnInv s := by
  have hmeets : Meets (next smallCfg) PushesHold Storage.init announce := by
    refine ⟨trivial, fun s hs => ⟨fun p _ _ => ?_, fun _ _ => trivial⟩⟩
    exact .inr ⟨by decide, ⟨rfl, .inr rfl⟩, .inl (by decide), .inl (by decide)⟩
  exact ⟨_, _, rfl, rfl, rfl, (connInv_of_run (run_of_exec announce .start hmeets rfl)).1⟩

/-- A client connects, has "/1/a" deleted and sends a CMD_GET_FILE_RSP. -/
def deleteThenRsp : List Act :=
  [.accept .up 3 5,
    .recvMsg 3 (baseHead CMD_PUT_FILE_REQ 1) (smallBase TASK_DELFILE (ascii "/1/a")) (smallEnv 9)
      (smallEnv 9)]

/-- **The delete leaves the connection in PREPARE_RECVFILE without a task**, and `do_recv_task`
    dereferences it. -/
theorem connInv_fails_after_delete : ∃ s, Reach (next smallCfg) Storage.init s ∧ ¬ ConnInv s ∧
    step smallCfg s (.recvMsg 3 (baseHead CMD_GET_FILE_RSP FILE_SYNC_DST_2_SRC)
      (smallBase TASK_ADDFILE (ascii "/1/a")) (smallEnv 9) (smallEnv 9)) = .error .nullDeref := by
  refine ⟨_, reach_of_exec deleteThenRsp .start rfl, fun hi => ?_, rfl⟩
  exact (hi 3 _ rfl).1 (.inl rfl) rfl

end Pfs
