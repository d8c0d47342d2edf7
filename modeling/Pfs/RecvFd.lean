/-
  The descriptors of received files (`local_in_fd`; network/pfs_localfile.c, network/D,
  network/U).

  `open_tmp_localfile_4_write` stores a descriptor in `local_in_fd`. It is closed by
  `close_tmp_check_mv` when the file is complete, before the next file is opened, and by
  `svc_finiconn`. The field is reset only after a file that passed its check: a file that fails it
  leaves a number behind that is closed again with the connection. An `open` that fails for any
  reason but a missing directory counts as a success.

  Main results: `oneOwner_of_run`, `failed_check_closes_twice`.
-/
import Pfs.ConnState
import Pfs.Lib.Handles

namespace Pfs

open Lib Function

/-! ## 1. What is opened and closed -/

/-- `open_tmp_localfile_4_write` got a descriptor, or `close` is called. -/
inductive FdOp where
  | opened (n : Nat)
  | closed (n : Nat)
  deriving DecidableEq

/-- `if (peer->local_in_fd > 0) close(peer->local_in_fd)`. -/
def Peer.closeIn (p : Peer) : List FdOp :=
  if 0 < p.localInFd then [.closed p.localInFd.toNat] else []

/-- `open_tmp_localfile_4_write`, for what it stores. -/
def openIn : Except Fault (LocalRet × Option Int × TaskBase × Nat × List FsOp) → List FdOp
  | .ok (_, some n, _, _, _) => if 0 ≤ n then [.opened n.toNat] else []
  | _ => []

section Ops

variable (cfg : Cfg)

/-- `do_recv_task` -/
def recvTaskFds (e : Env) (h : SigHead) (base : TaskBase) (p : Peer) (s : Storage) : List FdOp :=
  if p.sockStat ≠ .prepareRecvfile then []
  else
    match p.recvtask with
    | none => []
    | some i =>
      if h.status ≠ FILE_SYNC_DST_2_SRC then []
      else
        let n := s.pool.node i
        let base0 := if n.base.filemd5 = base.filemd5 then n.base else base
        p.closeIn ++ openIn (openTmpLocalfile4Write nodePre cfg.datadir e.fs s.gIndex base0)

/-- `do_push_task` -/
def pushTaskFds (e : Env) (h : SigHead) (base : TaskBase) (p : Peer) (s : Storage) : List FdOp :=
  if p.svc = .up ∧ base.type = TASK_DELFILE ∧ h.status = ADD_QUERY_DIR then []
  else
    match e.get .home s.pool, pushName cfg e p.svc h base (s.picIndex p.svc) with
    | some _, .ok (name, _) =>
      if base.type = TASK_DELFILE then []
      else
        p.closeIn ++ openIn (openTmpLocalfile4Write nodePre cfg.datadir e.fs s.gIndex
          (pushBase e p { base with filename := name }))
    | _, _ => []

/-- `do_req` -/
def reqFds (e : Env) (h : SigHead) (base : TaskBase) (p : Peer) (s : Storage) : List FdOp :=
  if h.cmdid = CMD_GET_FILE_RSP then
    if h.bodylen ≠ BASE_SIZE then [] else recvTaskFds cfg e h base p s
  else if h.cmdid = CMD_GET_FILE_REQ ∧ p.svc = .data then []
  else if h.cmdid = CMD_PUT_FILE_REQ then
    if h.bodylen ≠ BASE_SIZE then [] else pushTaskFds cfg e h base p s
  else []

/-- `svc_recv` in RECVFILEING: `close_tmp_check_mv` closes a descriptor that is not negative. -/
def recvFileFds (e : Env) (b : Mybuff) (p : Peer) (s : Storage) : List FdOp :=
  match p.recvtask with
  | none => []
  | some i =>
    let n := s.pool.node i
    match svcRecvFile md5 e.write b ⟨n.sub.processlen, n.sub.lastlen, p.ctx, []⟩ with
    | (.complete, _, _) => if 0 ≤ p.localInFd then [.closed p.localInFd.toNat] else []
    | _ => []

/-- `svc_finiconn`, for the connection as it is then. -/
def finiFds (s : Storage) (fd : Fd) : List FdOp := (s.conn fd).elim [] Peer.closeIn

/-- The descriptors of one step, and the connection it is for. -/
def fdOps (s : Storage) : Act → Fd × List FdOp
  | .recvMsg fd h base e _ =>
    match s.conn fd with
    | none => (fd, [])
    | some p =>
      if p.sockStat = .recvfileing then (fd, [])
      else
        match doReq cfg e fd h base p s with
        | .error _ => (fd, [])
        | .ok r => (fd, reqFds cfg e h base p s ++ if r.1 = .close then finiFds r.2 fd else [])
  | .recvData fd b e _ =>
    match s.conn fd with
    | none => (fd, [])
    | some p =>
      if p.sockStat = .recvfileing then
        let r := recvFile cfg e fd b p s
        (fd, recvFileFds e b p s ++ if r.1 = .close then finiFds r.2 fd else [])
      else (fd, [])
  | .send fd data file e =>
    match s.conn fd with
    | none => (fd, [])
    | some p =>
      match doSend e fd data file p s with
      | .error _ => (fd, [])
      | .ok s' => (fd, if (s'.conn fd).isNone then p.closeIn else [])
  | .close fd _ => (fd, finiFds s fd)
  | _ => (0, [])

end Ops

/-- One call after the other. The system gives no descriptor that is open. -/
def applyOps (fd : Fd) : List FdOp → Handles Fd → Option (Handles Fd)
  | [], t => some t
  | .opened n :: ops, t => if t.slot n = none then applyOps fd ops (t.opened fd n) else none
  | .closed n :: ops, t => applyOps fd ops (t.close fd n)

/-- The storage, and the table of the descriptors for received files. -/
structure FdSt where
  st : Storage
  tab : Handles Fd

def FdSt.init : FdSt := ⟨.init, .init⟩

def fdNext (cfg : Cfg) (x : FdSt) (a : Act) : Option FdSt :=
  (next cfg x.st a).bind fun s =>
    (applyOps (fdOps cfg x.st a).1 (fdOps cfg x.st a).2 x.tab).map fun t => ⟨s, t⟩

/-! ## 2. What is asked -/

/-- **Descriptors of received files have one owner.** Every close hits a descriptor that was opened
    for the connection that closes, no descriptor is closed twice, one that is not closed is in
    `local_in_fd` of its connection, and a connection in RECVFILEING has one. -/
structure OneOwner (x : FdSt) : Prop where
  own : ∀ c ∈ x.tab.closes, ∃ k, c.2 = some (k, c.1)
  once : x.tab.closed.Nodup
  kept : ∀ k < x.tab.count, k ∈ x.tab.closed ∨
    ∃ fd p n, x.st.conn fd = some p ∧ p.localInFd = (n : Nat) ∧ x.tab.slot n = some (k, fd)
  receiving : ∀ fd p, x.st.conn fd = some p → p.sockStat = .recvfileing →
    ∃ n k : Nat, p.localInFd = n ∧ x.tab.slot n = some (k, fd)

/-- A temporary file that is not opened is missing its directory, and 0 is not a free descriptor. -/
def FsEnv.OpensOrMissing (e : FsEnv) : Prop :=
  (e.openTmp = none → e.enoent = true) ∧ e.openTmp ≠ some 0 ∧ e.reopen ≠ some 0

def Completes (write : Nat → Int) (b : Mybuff) (sub : TaskSub) : Prop :=
  ∃ data, mybuffGetdata b = some data ∧
    0 ≤ toInt32 (write (takeLen (sub.processlen - sub.lastlen) data.length)) ∧
    sub.processlen ≤
      sub.lastlen + toInt32 (write (takeLen (sub.processlen - sub.lastlen) data.length))

/-- A file that is complete has the announced digest and can be renamed. -/
def PassesCheck (e : Env) (b : Mybuff) (p : Peer) (s : Storage) : Prop :=
  ∀ i, p.recvtask = some i → Completes e.write b (s.pool.node i).sub →
    e.fs.rename = true ∧
      ∃ md5, e.fs.filemd5 = some md5 ∧ md5 ++ [0] = (s.pool.node i).base.filemd5

/-- A file opens unless it is missing, and what came passes its check. -/
def FilesHold (x : FdSt) : Act → Prop
  | .recvMsg _ _ _ e _ => e.fs.OpensOrMissing
  | .recvData fd b e _ => ∀ p, x.st.conn fd = some p → PassesCheck e b p x.st
  | _ => True

/-! ## 3. The invariant -/

/-- A connection that receives owns its descriptor; another one has none. -/
def HoldsFd (t : Handles Fd) (fd : Fd) (p : Peer) : Prop :=
  if p.sockStat = .recvfileing then
    ∃ n k : Nat, 0 < n ∧ p.localInFd = n ∧ t.slot n = some (k, fd)
  else p.localInFd ≤ 0

/-- The open descriptors are the `local_in_fd` of the connections that receive. -/
structure FdInv (s : Storage) (t : Handles Fd) : Prop where
  tidy : Tidy t
  conn : ∀ fd p, s.conn fd = some p → HoldsFd t fd p
  live : ∀ n k fd, t.slot n = some (k, fd) →
    ∃ p, s.conn fd = some p ∧ p.sockStat = .recvfileing ∧ p.localInFd = n

/-- The connection has the descriptor it had, and receives if it did. -/
structure SameFd (p p' : Peer) : Prop where
  fd : p'.localInFd = p.localInFd
  stat : p'.sockStat = .recvfileing ↔ p.sockStat = .recvfileing

/-- All that a handler does to the connection it runs for, and what it opens and closes. -/
inductive Turned (p : Peer) : List FdOp → Peer → Prop where
  | quiet {p' : Peer} (h : SameFd p p') : Turned p [] p'
  | failed {p' : Peer} (hp : p.sockStat ≠ .recvfileing) (hp' : p'.sockStat ≠ .recvfileing)
      (hfd : p'.localInFd = p.localInFd ∨ p'.localInFd = -1) : Turned p p.closeIn p'
  | opened {p' : Peer} (n : Nat) (hp : p.sockStat ≠ .recvfileing) (hp' : p'.sockStat = .recvfileing)
      (hfd : p'.localInFd = n) (hn : 0 < n) : Turned p (p.closeIn ++ [.opened n]) p'
  | done {p' : Peer} (n : Nat) (hp : p.sockStat = .recvfileing) (hn : p.localInFd = n)
      (hp' : p'.sockStat ≠ .recvfileing) (hfd : p'.localInFd = -1) : Turned p [.closed n] p'

section Invariant

variable {s s' : Storage} {t t' : Handles Fd} {fd : Fd} {p p' : Peer} {ops : List FdOp}

theorem HoldsFd.receiving (h : HoldsFd t fd p) (hp : p.sockStat = .recvfileing) :
    ∃ n k : Nat, 0 < n ∧ p.localInFd = n ∧ t.slot n = some (k, fd) := by
  unfold HoldsFd at h
  rw [if_pos hp] at h
  exact h

theorem HoldsFd.closeIn_nil (h : HoldsFd t fd p) (hp : p.sockStat ≠ .recvfileing) :
    p.closeIn = [] := by
  unfold HoldsFd at h
  rw [if_neg hp] at h
  exact if_neg (Int.not_lt.mpr h)

theorem applyOps_append (fd : Fd) (a b : List FdOp) (t : Handles Fd) :
    applyOps fd (a ++ b) t = (applyOps fd a t).bind (applyOps fd b) := by
  induction a generalizing t with
  | nil => rfl
  | cons op a ih =>
    cases op with
    | opened n =>
      simp only [List.cons_append, applyOps]
      split
      · exact ih _
      · rfl
    | closed n =>
      simp only [List.cons_append, applyOps]
      exact ih _

theorem HoldsFd.mono (h : HoldsFd t fd p)
    (hslot : ∀ n k, t.slot n = some (k, fd) → t'.slot n = some (k, fd)) : HoldsFd t' fd p := by
  unfold HoldsFd at h ⊢
  split at h
  · rename_i hst
    obtain ⟨n, k, hn, hfd, hs⟩ := h
    rw [if_pos hst]
    exact ⟨n, k, hn, hfd, hslot n k hs⟩
  · rename_i hst
    rw [if_neg hst]
    exact h

theorem HoldsFd.quiet (h : HoldsFd t fd p) (hq : SameFd p p') : HoldsFd t fd p' := by
  unfold HoldsFd at h ⊢
  simp only [hq.stat, hq.fd]
  exact h

theorem FdInv.no_slot (h : FdInv s t) (hp : s.conn fd = some p) (hst : p.sockStat ≠ .recvfileing)
    (n k : Nat) : t.slot n ≠ some (k, fd) := by
  intro hs
  obtain ⟨q, hq, hqst, -⟩ := h.live n k fd hs
  cases hp.symm.trans hq
  exact hst hqst

variable {n m k : Nat}

theorem FdInv.slot_eq (h : FdInv s t) (hp : s.conn fd = some p)
    (hn : p.localInFd = n) (hs : t.slot m = some (k, fd)) : m = n := by
  obtain ⟨q, hq, -, hm⟩ := h.live m k fd hs
  cases hp.symm.trans hq
  rw [hn] at hm
  exact (Int.ofNat.inj hm).symm

theorem FdInv.no_slot_close (h : FdInv s t) (hp : s.conn fd = some p)
    (hn : p.localInFd = n) (m k : Nat) : (t.close fd n).slot m ≠ some (k, fd) := by
  intro hs
  by_cases hm : m = n
  · subst hm
    simp [Handles.close] at hs
  · simp only [Handles.close, update_of_ne hm] at hs
    exact hm (h.slot_eq hp hn hs)

/-- The invariant after a step that leaves all other connections: what is to be shown of the table
    and of the connection itself. -/
theorem FdInv.update (h : FdInv s t) (htidy : Tidy t') {o : Option Peer}
    (hs : s'.conn = update s.conn fd o) (hself : ∀ q, o = some q → HoldsFd t' fd q)
    (hother : ∀ n k g, g ≠ fd → (t'.slot n = some (k, g) ↔ t.slot n = some (k, g)))
    (hlive : ∀ n k, t'.slot n = some (k, fd) →
      ∃ q, o = some q ∧ q.sockStat = .recvfileing ∧ q.localInFd = n) : FdInv s' t' := by
  refine ⟨htidy, ?_, ?_⟩
  · intro g q hq
    rw [hs] at hq
    rcases conn_of_update hq with ⟨rfl, he⟩ | ⟨hg, hold⟩
    · exact hself q he
    · exact (h.conn g q hold).mono fun n k => (hother n k g hg).mpr
  · intro n k g hslot
    rw [hs]
    by_cases hg : g = fd
    · subst hg
      rw [update_self]
      exact hlive n k hslot
    · rw [update_of_ne hg]
      exact h.live n k g ((hother n k g hg).mp hslot)

theorem slot_opened {g : Nat} (hg : g ≠ fd) (hn : t.slot n = none) :
    (t.opened fd n).slot m = some (k, g) ↔ t.slot m = some (k, g) := by
  by_cases hm : m = n
  · subst hm
    simp [Handles.opened, hn, Ne.symm hg]
  · simp [Handles.opened, update_of_ne hm]

theorem slot_close {j g : Nat} (hg : g ≠ fd) (hn : t.slot n = some (j, fd)) :
    (t.close fd n).slot m = some (k, g) ↔ t.slot m = some (k, g) := by
  by_cases hm : m = n
  · subst hm
    simp [Handles.close, hn, Ne.symm hg]
  · simp [Handles.close, update_of_ne hm]

theorem fdInv_turned (h : FdInv s t) (hp : s.conn fd = some p) (hturn : Turned p ops p')
    (hs : s'.conn = update s.conn fd (some p')) (ht : applyOps fd ops t = some t') :
    FdInv s' t' := by
  have hold := h.conn fd p hp
  cases hturn with
  | quiet hquiet =>
    cases ht
    refine h.update h.tidy hs ?_ (fun _ _ _ _ => Iff.rfl) ?_
    · intro q hq
      cases hq
      exact hold.quiet hquiet
    · intro n k hslot
      obtain ⟨q, hq, hqst, hn⟩ := h.live n k fd hslot
      cases hp.symm.trans hq
      exact ⟨p', rfl, hquiet.stat.mpr hqst, hquiet.fd.trans hn⟩
  | failed hst hst' hfd =>
    rw [hold.closeIn_nil hst] at ht
    cases ht
    refine h.update h.tidy hs ?_ (fun _ _ _ _ => Iff.rfl)
      (fun n k hslot => absurd hslot (h.no_slot hp hst n k))
    intro q hq
    cases hq
    unfold HoldsFd at hold ⊢
    rw [if_neg hst] at hold
    rw [if_neg hst']
    omega
  | opened n hst hst' hfd hn =>
    rw [hold.closeIn_nil hst, List.nil_append] at ht
    simp only [applyOps] at ht
    split at ht
    · rename_i hfree
      cases ht
      refine h.update (h.tidy.opened hfree fd) hs ?_ (fun m k g hg => slot_opened hg hfree) ?_
      · intro q hq
        cases hq
        unfold HoldsFd
        rw [if_pos hst']
        exact ⟨n, t.count, hn, hfd, by simp [Handles.opened]⟩
      · intro m k hslot
        by_cases hm : m = n
        · subst hm
          exact ⟨p', rfl, hst', hfd⟩
        · simp only [Handles.opened, update_of_ne hm] at hslot
          exact absurd hslot (h.no_slot hp hst m k)
    · cases ht
  | done n hst hn hst' hfd =>
    cases ht
    obtain ⟨m, k, -, hm, hslot⟩ := hold.receiving hst
    have hmn : m = n := Int.ofNat.inj (hm.symm.trans hn)
    subst hmn
    refine h.update (h.tidy.close hslot) hs ?_ (fun m' k' g hg => slot_close hg hslot) ?_
    · intro q hq
      cases hq
      unfold HoldsFd
      rw [if_neg hst', hfd]
      decide
    · intro m' k' hslot'
      exact absurd hslot' (h.no_slot_close hp hn m' k')

theorem fdInv_ended (h : FdInv s t) (hp : s.conn fd = some p)
    (hs : s'.conn = update s.conn fd none) (ht : applyOps fd p.closeIn t = some t') :
    FdInv s' t' := by
  have hold := h.conn fd p hp
  by_cases hst : p.sockStat = .recvfileing
  · obtain ⟨n, k, hpos, hn, hslot⟩ := hold.receiving hst
    have hclose : p.closeIn = [.closed n] := by
      unfold Peer.closeIn
      rw [hn, if_pos (by omega), Int.toNat_natCast]
    rw [hclose] at ht
    cases ht
    exact h.update (h.tidy.close hslot) hs (fun q hq => by cases hq)
      (fun m k g hg => slot_close hg hslot)
      (fun m k hslot' => absurd hslot' (h.no_slot_close hp hn m k))
  · rw [hold.closeIn_nil hst] at ht
    cases ht
    exact h.update h.tidy hs (fun q hq => by cases hq) (fun _ _ _ _ => Iff.rfl)
      (fun n k hslot => absurd hslot (h.no_slot hp hst n k))

theorem FdInv.of_conn (h : FdInv s t) (hs : s'.conn = s.conn) : FdInv s' t where
  tidy := h.tidy
  conn := by
    rw [hs]
    exact h.conn
  live := by
    rw [hs]
    exact h.live

/-- A connection may come that does not receive yet. -/
theorem FdInv.comes (h : FdInv s t) (hnone : s.conn fd = none)
    (hs : s'.conn = Function.update s.conn fd (some p')) (hfd : p'.localInFd = 0)
    (hst : p'.sockStat ≠ .recvfileing) : FdInv s' t := by
  refine h.update h.tidy hs ?_ (fun _ _ _ _ => Iff.rfl) ?_
  · intro q hq
    cases hq
    unfold HoldsFd
    rw [if_neg hst]
    exact Int.le_of_eq hfd
  · intro n k hslot
    obtain ⟨q, hq, -⟩ := h.live n k fd hslot
    cases hnone.symm.trans hq

theorem SameFd.refl (p : Peer) : SameFd p p := ⟨rfl, Iff.rfl⟩

theorem SameFd.trans {p₁ p₂ p₃ : Peer} (h : SameFd p₁ p₂) (h' : SameFd p₂ p₃) : SameFd p₁ p₃ :=
  ⟨h'.fd.trans h.fd, h'.stat.trans h.stat⟩

theorem SameFd.of_ne (hfd : p'.localInFd = p.localInFd) (hp : p.sockStat ≠ .recvfileing)
    (hp' : p'.sockStat ≠ .recvfileing) : SameFd p p' :=
  ⟨hfd, fun h => absurd h hp', fun h => absurd h hp⟩

end Invariant

/-! ## 4. The handlers -/

section Handlers

variable {cfg : Cfg} {e : Env} {fd : Fd} {h : SigHead} {base : TaskBase} {p p' : Peer}
variable {s s' : Storage} {ops : List FdOp}

/-- The handler has changed its connection, and no other. -/
def TookTurn (fd : Fd) (s : Storage) (p : Peer) (ops : List FdOp) (s' : Storage) : Prop :=
  ∃ p', s'.conn = update s.conn fd (some p') ∧ Turned p ops p'

theorem turn_same (hp : s.conn fd = some p) (hs : s'.conn = s.conn) : TookTurn fd s p [] s' := by
  refine ⟨p, ?_, .quiet (.refl p)⟩
  rw [hs, ← hp, update_eq_self]

theorem turn_setPeer (hs : s'.conn = s.conn) (hturn : Turned p ops p') :
    TookTurn fd s p ops (s'.setPeer fd p') := by
  refine ⟨p', ?_, hturn⟩
  rw [← hs]
  rfl

/-- A descriptor and success, or neither. -/
def Opened (ret : LocalRet) (lfd : Option Int) : Prop :=
  ret = .ok ∧ (∃ n : Nat, 0 < n ∧ lfd = some (n : Int)) ∨ ret ≠ .ok ∧ (lfd = none ∨ lfd = some (-1))

theorem openTmp_opened {e : FsEnv} (he : e.OpensOrMissing) (filename tmpfile : Path) :
    Opened (openTmp e filename tmpfile).1 (some (openTmp e filename tmpfile).2.1) := by
  obtain ⟨hmissing, hopen, hreopen⟩ := he
  unfold openTmp
  cases ho : e.openTmp with
  | some n =>
    refine .inl ⟨rfl, n, Nat.pos_of_ne_zero ?_, rfl⟩
    rintro rfl
    exact hopen ho
  | none =>
    simp only [hmissing ho, if_true]
    split
    · exact .inr ⟨fun h => (nomatch h), .inr rfl⟩
    cases hr : e.reopen with
    | some n =>
      refine .inl ⟨rfl, n, Nat.pos_of_ne_zero ?_, rfl⟩
      rintro rfl
      exact hreopen hr
    | none => exact .inr ⟨fun h => (nomatch h), .inr rfl⟩

theorem openTmpLocalfile4Write_opened {pre datadir : Path} {e : FsEnv} {g g' : Nat}
    {b b' : TaskBase} {ret : LocalRet} {lfd : Option Int} {fsops : List FsOp}
    (he : e.OpensOrMissing)
    (ho : openTmpLocalfile4Write pre datadir e g b = .ok (ret, lfd, b', g', fsops)) :
    Opened ret lfd := by
  unfold openTmpLocalfile4Write at ho
  split at ho
  · cases ho
  · cases ho
    exact .inr ⟨fun h => (nomatch h), .inl rfl⟩
  simp only at ho
  split at ho
  · cases ho
  · cases ho
    exact openTmp_opened he _ _

theorem turned_open {pre datadir : Path} {g g' : Nat} {b b' : TaskBase} {ret : LocalRet}
    {lfd : Option Int} {fsops : List FsOp} (he : e.fs.OpensOrMissing)
    (hst : p.sockStat ≠ .recvfileing)
    (ho : openTmpLocalfile4Write pre datadir e.fs g b = .ok (ret, lfd, b', g', fsops))
    (hfd : p'.localInFd = lfd.getD p.localInFd) (hp' : p'.sockStat = .recvfileing ↔ ret = .ok) :
    Turned p (p.closeIn ++ openIn (openTmpLocalfile4Write pre datadir e.fs g b)) p' := by
  have hopened := openTmpLocalfile4Write_opened he ho
  rw [ho]
  obtain ⟨hok, n, hn, rfl⟩ | ⟨hfail, hlfd⟩ := hopened
  · have hops : openIn (.ok (ret, some (n : Int), b', g', fsops)) = [.opened n] := by simp [openIn]
    rw [hops]
    exact .opened n hst (hp'.mpr hok) hfd hn
  have hops : openIn (.ok (ret, lfd, b', g', fsops)) = [] := by
    obtain rfl | rfl := hlfd <;> simp [openIn]
  rw [hops, List.append_nil]
  refine .failed hst (fun h => hfail (hp'.mp h)) ?_
  obtain rfl | rfl := hlfd
  · exact .inl hfd
  · exact .inr hfd

variable {r : RecvRet × Storage} {t : Storage}

theorem doRecvTask_turn (hp : s.conn fd = some p)
    (hst : p.sockStat ≠ .recvfileing) (he : e.fs.OpensOrMissing) :
    Yields (fun r => TookTurn fd s p (recvTaskFds cfg e h base p s) r.2)
      (doRecvTask cfg e fd h base p s) := by
  unfold doRecvTask recvTaskFds
  split
  · exact turn_same hp rfl
  cases p.recvtask with
  | none => trivial
  | some i =>
    simp only
    split
    · exact turn_setPeer rfl (.quiet (.of_ne rfl hst fun h => nomatch h))
    generalize (if (s.pool.node i).base.filemd5 = base.filemd5 then (s.pool.node i).base
      else base) = base0
    split
    · trivial
    rename_i ho
    split
    · rename_i hret
      exact turn_setPeer rfl (turned_open he hst ho rfl
        ⟨fun h => absurd h hst, fun h => absurd h hret⟩)
    · rename_i hret
      exact turn_setPeer rfl (turned_open he hst ho rfl
        ⟨fun _ => not_not.mp hret, fun _ => rfl⟩)

theorem doPushTask_turn (hst : p.sockStat ≠ .recvfileing) (he : e.fs.OpensOrMissing) :
    Yields (fun r => TookTurn fd s p (pushTaskFds cfg e h base p s) r.2)
      (doPushTask cfg e fd h base p s) := by
  have hquiet : ∀ q : Peer, q.localInFd = p.localInFd → q.sockStat = .prepareRecvfile →
      Turned p [] q :=
    fun q hfd hq => .quiet (.of_ne hfd hst (by rw [hq]; exact fun h => nomatch h))
  unfold doPushTask pushTaskFds
  split
  · exact turn_setPeer rfl (.quiet ⟨rfl, Iff.rfl⟩)
  unfold pushTask
  simp only
  cases e.get .home s.pool with
  | none => exact turn_setPeer rfl (hquiet _ rfl rfl)
  | some taken =>
    simp only
    cases pushName cfg e p.svc h base (s.picIndex p.svc) with
    | error f => trivial
    | ok name =>
      simp only
      split
      · unfold pushDelete
        split
        · trivial
        · exact turn_setPeer rfl (hquiet _ rfl rfl)
      unfold pushOpen
      simp only [base_create]
      split
      · trivial
      rename_i ho
      split
      · rename_i hret
        exact turn_setPeer rfl (turned_open he hst ho rfl
          ⟨fun h => (nomatch h), fun h => absurd h hret⟩)
      · rename_i hret
        exact turn_setPeer rfl (turned_open he hst ho rfl
          ⟨fun _ => not_not.mp hret, fun _ => rfl⟩)

theorem doSendTask_turn (hst : p.sockStat ≠ .recvfileing) :
    TookTurn fd s p [] (doSendTask cfg e fd base p s) := by
  unfold doSendTask
  simp only
  split
  · exact turn_setPeer rfl (.quiet ⟨rfl, Iff.rfl⟩)
  split
  · exact turn_setPeer rfl (.quiet ⟨rfl, Iff.rfl⟩)
  split
  · exact turn_setPeer rfl (.quiet ⟨rfl, Iff.rfl⟩)
  · exact turn_setPeer rfl (.quiet (.of_ne rfl hst fun h => nomatch h))

theorem doReq_turn (hp : s.conn fd = some p)
    (hst : p.sockStat ≠ .recvfileing) (he : e.fs.OpensOrMissing) :
    Yields (fun r => TookTurn fd s p (reqFds cfg e h base p s) r.2)
      (doReq cfg e fd h base p s) := by
  unfold doReq reqFds
  split
  · split
    · exact turn_same hp rfl
    · exact doRecvTask_turn hp hst he
  split
  · split
    · exact turn_same hp rfl
    · exact doSendTask_turn hst
  split
  · split
    · exact turn_same hp rfl
    · exact doPushTask_turn hst he
  · exact turn_same hp rfl

theorem quiet_createPushRspErr (text : List UInt8) (p : Peer) :
    SameFd p (createPushRspErr cfg text p) := ⟨rfl, Iff.rfl⟩

theorem completes_of_complete {b b' : Mybuff} {sub : TaskSub} {ctx : Md5Context}
    {x : Incoming Md5Context}
    (hf : svcRecvFile md5 e.write b ⟨sub.processlen, sub.lastlen, ctx, []⟩ = (.complete, b', x)) :
    Completes e.write b sub := by
  unfold svcRecvFile at hf
  split at hf
  · cases hf
  rename_i data hdata
  refine ⟨data, hdata, ?_⟩
  unfold afterWrite at hf
  simp only at hf
  split at hf
  · cases hf
  rename_i hneg
  refine ⟨Int.not_lt.mp hneg, ?_⟩
  split at hf
  · assumption
  · cases hf

theorem recvFile_turn {b : Mybuff} {n : Nat} (hp : s.conn fd = some p)
    (hst : p.sockStat = .recvfileing) (hn : p.localInFd = n) (hcheck : PassesCheck e b p s) :
    TookTurn fd s p (recvFileFds e b p s) (recvFile cfg e fd b p s).2 := by
  unfold recvFile recvFileFds
  cases hrecv : p.recvtask with
  | none => exact turn_same hp rfl
  | some i =>
    simp only
    cases hf : svcRecvFile md5 e.write b ⟨(s.pool.node i).sub.processlen,
      (s.pool.node i).sub.lastlen, p.ctx, []⟩ with
    | mk ret rest =>
      obtain ⟨b', x⟩ := rest
      cases ret with
      | noData => exact turn_same hp rfl
      | writeErr =>
        refine turn_setPeer rfl (.quiet ?_)
        split
        · exact quiet_createPushRspErr _ p
        · exact .refl p
      | more => exact turn_setPeer rfl (.quiet ⟨rfl, Iff.rfl⟩)
      | complete =>
        simp only [hn, if_pos (Int.natCast_nonneg n), Int.toNat_natCast]
        obtain ⟨hren, md5', hget, heq⟩ := hcheck i hrecv (completes_of_complete hf)
        have hfd : 0 ≤ p.localInFd := by
          rw [hn]
          exact Int.natCast_nonneg n
        unfold recvDone
        simp only
        rw [if_neg (not_not.mpr (closeTmpCheckMv_ok hfd hren hget ?_))]
        · exact turn_setPeer rfl (.done n hst hn (fun h => nomatch h) rfl)
        · simpa [Pool.store, Pool.modify] using heq

/-! ## 5. Sending and closing -/

theorem svcFiniconn_conn (e : Env) (fd : Fd) (p : Peer) (s : Storage) :
    (svcFiniconn e fd p s).conn = update s.conn fd none := by
  rw [svcFiniconn, (finiRecv_frame _ _ _).1, (finiSend_frame _ _ _).1]

theorem svcSend_quiet (hp : s.conn fd = some p) :
    Yields (fun r => ∃ p', r.2.conn = update s.conn fd (some p') ∧
      SameFd p p') (svcSend e fd p s) := by
  have hsame : s.conn = update s.conn fd (some p) := by rw [← hp, update_eq_self]
  unfold svcSend
  split
  · exact ⟨p, hsame, .refl p⟩
  split
  · rename_i hst
    split
    · trivial
    · exact ⟨_, rfl, .of_ne rfl (by rw [hst]; exact fun h => nomatch h) fun h => nomatch h⟩
  · exact ⟨p, hsame, .refl p⟩

theorem doSend_quiet {data file : SendRes} :
    Yields (fun t => (∃ p', t.conn = update s.conn fd (some p') ∧ SameFd p p') ∨
      t.conn = update s.conn fd none) (doSend e fd data file p s) := by
  refine doSend_outcome (fun _ _ => .inl ⟨_, rfl, rfl, Iff.rfl⟩) ?_ ?_
  · rintro q t hq (⟨p₁, hconn, hsame⟩ | hconn)
    · rw [hconn, update_self] at hq
      cases hq
      refine (svcSend_quiet (by rw [hconn, update_self])).mono fun r hr => ?_
      obtain ⟨p₂, hconn₂, hsame₂⟩ := hr
      exact .inl ⟨p₂, by rw [hconn₂, hconn, update_idem], hsame.trans hsame₂⟩
    · rw [hconn, update_self] at hq
      cases hq
  · rintro q t - (⟨p₁, hconn, -⟩ | hconn)
    · exact .inr (by rw [svcFiniconn_conn, hconn, update_idem])
    · exact .inr (by rw [svcFiniconn_conn, hconn, update_idem])

/-! ## 6. New connections and `check_task` -/

theorem fdInv_accept {t : Handles Fd} (hi : FdInv s t) (svc : Svc) (ip : UInt32) :
    FdInv (s.accept svc fd ip) t := by
  unfold Storage.accept
  split
  · rename_i hnone
    exact hi.comes hnone rfl rfl fun h => nomatch h
  · exact hi

theorem fdInv_checkKeeps (t : Handles Fd) :
    CheckKeeps cfg fun conn => FdInv { Storage.init with conn := conn } t where
  opened := fun _ hi hnone => hi.comes hnone rfl rfl fun h => nomatch h
  asked := by
    intro conn fd p i msg hi hp hidle
    have hst : p.sockStat ≠ .recvfileing := by
      rw [hidle]
      exact fun h => nomatch h
    refine fdInv_turned hi hp (.quiet (.of_ne ?_ hst ?_)) rfl rfl
    · rfl
    · exact fun h => nomatch h

end Handlers

/-! ## 7. Runs -/

section Runs

variable {cfg : Cfg} {x x' : FdSt} {fd : Fd}

variable {s s' : Storage} {t t' : Handles Fd} {e : Env}

theorem fdInv_afterRecv {p : Peer} {ops : List FdOp}
    {r : RecvRet × Storage} (h : FdInv s t) (hp : s.conn fd = some p)
    (htook : TookTurn fd s p ops r.2) (e : Env)
    (ht : applyOps fd (ops ++ if r.1 = .close then finiFds r.2 fd else []) t = some t') :
    FdInv (afterRecv e fd r) t' := by
  obtain ⟨p', hconn, hturn⟩ := htook
  rw [applyOps_append] at ht
  obtain ⟨t₁, ht₁, ht⟩ := Option.bind_eq_some_iff.mp ht
  have h₁ : FdInv r.2 t₁ := fdInv_turned h hp hturn hconn ht₁
  have hp' : r.2.conn fd = some p' := by rw [hconn, update_self]
  unfold afterRecv
  by_cases hclose : r.1 = .close
  · rw [if_pos hclose] at ht ⊢
    simp only [finiFds, hp', Option.elim_some] at ht
    simp only [Storage.doClose, hp']
    exact fdInv_ended h₁ hp' (svcFiniconn_conn _ _ _ _) ht
  · rw [if_neg hclose] at ht ⊢
    cases ht
    exact h₁

theorem fdInv_recvMsg {hd : SigHead} {base : TaskBase}
    {e' : Env} (h : FdInv s t) (he : e.fs.OpensOrMissing)
    (hstep : step cfg s (.recvMsg fd hd base e e') = .ok s')
    (ht : applyOps (fdOps cfg s (.recvMsg fd hd base e e')).1
      (fdOps cfg s (.recvMsg fd hd base e e')).2 t = some t') : FdInv s' t' := by
  cases hp : s.conn fd with
  | none =>
    simp only [fdOps, step, hp] at ht hstep
    cases ht
    cases hstep
    exact h
  | some p =>
    simp only [fdOps, step, hp] at ht hstep
    by_cases hst : p.sockStat = .recvfileing
    · simp only [if_pos hst] at ht hstep
      cases ht
      cases hstep
      exact h
    · simp only [if_neg hst] at ht hstep
      cases hreq : doReq cfg e fd hd base p s with
      | error f =>
        rw [hreq] at hstep
        cases hstep
      | ok r =>
        rw [hreq] at hstep
        simp only [hreq] at ht
        cases hstep
        exact fdInv_afterRecv h hp ((doReq_turn hp hst he).of_ok hreq) e' ht

theorem fdInv_recvData {b : Mybuff} {e' : Env}
    (h : FdInv s t) (hcheck : ∀ p, s.conn fd = some p → PassesCheck e b p s)
    (hstep : step cfg s (.recvData fd b e e') = .ok s')
    (ht : applyOps (fdOps cfg s (.recvData fd b e e')).1
      (fdOps cfg s (.recvData fd b e e')).2 t = some t') : FdInv s' t' := by
  cases hp : s.conn fd with
  | none =>
    simp only [fdOps, step, hp] at ht hstep
    cases ht
    cases hstep
    exact h
  | some p =>
    simp only [fdOps, step, hp] at ht hstep
    by_cases hst : p.sockStat = .recvfileing
    · simp only [if_pos hst] at ht hstep
      cases hstep
      obtain ⟨n, k, -, hn, -⟩ := (h.conn fd p hp).receiving hst
      exact fdInv_afterRecv h hp (recvFile_turn hp hst hn (hcheck p hp)) e' ht
    · simp only [if_neg hst] at ht hstep
      cases ht
      cases hstep
      exact h

theorem fdInv_send {data file : SendRes}
    (h : FdInv s t) (hstep : step cfg s (.send fd data file e) = .ok s')
    (ht : applyOps (fdOps cfg s (.send fd data file e)).1
      (fdOps cfg s (.send fd data file e)).2 t = some t') : FdInv s' t' := by
  cases hp : s.conn fd with
  | none =>
    simp only [fdOps, step, hp] at ht hstep
    cases ht
    cases hstep
    exact h
  | some p =>
    simp only [fdOps, step, hp] at ht hstep
    simp only [hstep] at ht
    obtain ⟨p', hconn, hquiet⟩ | hconn := doSend_quiet.of_ok hstep
    · rw [hconn, update_self] at ht
      cases ht
      exact fdInv_turned h hp (.quiet hquiet) hconn rfl
    · rw [hconn, update_self] at ht
      exact fdInv_ended h hp hconn ht

theorem fdInv_close (h : FdInv s t) (e : Env)
    (ht : applyOps fd (finiFds s fd) t = some t') : FdInv (s.doClose e fd) t' := by
  unfold Storage.doClose
  unfold finiFds at ht
  cases hp : s.conn fd with
  | none =>
    rw [hp] at ht
    cases ht
    exact h
  | some p =>
    rw [hp] at ht
    exact fdInv_ended h hp (svcFiniconn_conn _ _ _ _) ht

/-- **Every step keeps the owners** if it meets the condition. -/
theorem fdInv_step {a : Act} (h : FdInv x.st x.tab) (hok : FilesHold x a)
    (hs : fdNext cfg x a = some x') : FdInv x'.st x'.tab := by
  obtain ⟨s', hnext, hx'⟩ := Option.bind_eq_some_iff.mp hs
  obtain ⟨t', ht, rfl⟩ := Option.map_eq_some_iff.mp hx'
  have hstep : step cfg x.st a = .ok s' := next_eq_some.mp hnext
  simp only
  cases a with
  | accept svc fd ip =>
    cases ht
    cases hstep
    exact fdInv_accept h svc ip
  | recvMsg fd hd base e e' => exact fdInv_recvMsg h hok hstep ht
  | recvData fd b e e' => exact fdInv_recvData h hok hstep ht
  | send fd data file e => exact fdInv_send h hstep ht
  | close fd e => cases hstep; exact fdInv_close h e ht
  | dataCheck envs =>
    cases ht
    exact (((fdInv_checkKeeps x.tab).dataCheckTask (h.of_conn rfl)).of_ok hstep).of_conn rfl
  | _ =>
    cases ht
    exact h.of_conn ((step_conns rfl).of_ok hstep).1

/-- **Descriptors of received files have one owner** in every state that a run reaches whose steps
    all meet the condition. -/
theorem oneOwner_of_run (h : Run (fdNext cfg) FilesHold FdSt.init x) : OneOwner x := by
  have hinit : FdInv FdSt.init.st FdSt.init.tab :=
    ⟨tidy_init, fun _ _ hp => (nomatch hp), fun _ _ _ hslot => (nomatch hslot)⟩
  have hI : FdInv x.st x.tab :=
    h.inv (I := fun x => FdInv x.st x.tab) hinit fun _ _ _ hI hok hs => fdInv_step hI hok hs
  refine ⟨hI.tidy.own, hI.tidy.once, ?_, ?_⟩
  · intro k hk
    obtain hc | ⟨n, fd, hslot⟩ := hI.tidy.all k hk
    · exact .inl hc
    · obtain ⟨p, hp, -, hn⟩ := hI.live n k fd hslot
      exact .inr ⟨fd, p, n, hp, hn, hslot⟩
  · intro fd p hp hst
    obtain ⟨n, k, -, hn, hslot⟩ := (hI.conn fd p hp).receiving hst
    exact ⟨n, k, hn, hslot⟩

end Runs

/-! ## 8. A file that fails its check -/

def afterFds (acts : List Act) : FdSt := (exec (fdNext smallCfg) FdSt.init acts).getD FdSt.init

theorem oneOwner_of_announce :
    OneOwner (afterFds announce) ∧ (afterFds announce).tab.slot 7 = some (0, 3) := by
  have hmeets : Meets (fdNext smallCfg) FilesHold FdSt.init announce := by
    refine ⟨trivial, fun x _ => ⟨⟨fun h => (nomatch h), ?_, ?_⟩, fun _ _ => trivial⟩⟩
    · decide
    · decide
  exact ⟨oneOwner_of_run (run_of_exec announce .start hmeets rfl), rfl⟩

/-- The two bytes of the announced file come, they have another digest, and `svc_recv` is called
    once more. -/
def wrongDigest : List Act :=
  announce ++
    [.recvData 3 (mybuffSetdata 16 mybuffInit [97, 98]) (smallEnv 9) (smallEnv 9),
      .recvData 3 mybuffInit (smallEnv 9) (smallEnv 9)]

/-- **The descriptor of a file that fails its check is closed twice**: by `close_tmp_check_mv`, and
    with the connection, which has it in `local_in_fd` still. -/
theorem failed_check_closes_twice :
    ∃ x, Reach (fdNext smallCfg) FdSt.init x ∧ x.tab.closes = [(3, some (0, 3)), (3, none)] ∧
      ¬ OneOwner x := by
  have hcloses : (afterFds wrongDigest).tab.closes = [(3, some (0, 3)), (3, none)] := by
    decide +kernel
  refine ⟨afterFds wrongDigest, ?_, hcloses, ?_⟩
  · exact reach_of_exec wrongDigest .start (exec_eq_getD _ (by decide +kernel))
  · intro h
    obtain ⟨k, hk⟩ := h.own (3, none) (by rw [hcloses]; simp)
    cases hk

end Pfs
