/-
  When the upload service answers "OK|", and what it hands to TASK_Q_FIN then.

  Main results: `replies_iff_done`, `replies_undone`.
-/
import Pfs.UpService

namespace Pfs

open Lib

/-! ## 1. The invariant -/

/-- The task of a connection that receives a file. -/
structure UpTask (s : Storage) (x : UpFile) (p : Peer) (i : NodeId) : Prop where
  receiving : p.sockStat = .recvfileing
  ctx : p.ctx = md5.after x.written
  unfinished : i ∉ s.pool.q .fin
  allocated : i < s.pool.fresh
  names : (s.pool.node i).item.base.tmpfile = x.tmpfile ∧
    (s.pool.node i).item.base.filename = x.path ∧ (s.pool.node i).item.base.filemd5 = x.filemd5
  lengths : (s.pool.node i).item.sub.processlen = x.fsize ∧
    (s.pool.node i).item.sub.lastlen = x.written.length
  kind : (s.pool.node i).item.sub.operType = .upReq ∧
    (s.pool.node i).item.sub.needSync = .source

/-- The connection of an upload has its task, and no task to send. -/
structure UpInv (fd : Fd) (s : UpSt) : Prop where
  tidy : Tidy s.store.pool
  svc : ∀ p, s.store.conn fd = some p → p.svc = .up ∧ p.sendtask = none
  task : ∀ p i, s.store.conn fd = some p → p.recvtask = some i → UpTask s.store s.file p i

section Keep

variable {cfg : Cfg} {fd : Fd} {e : Env} {s t : Storage} {x : UpFile} {p : Peer} {i : NodeId}

theorem conn_setPeer (s : Storage) (fd : Fd) (p : Peer) : (s.setPeer fd p).conn fd = some p :=
  Function.update_self _ _ _

theorem UpInv.closed (htidy : Tidy t.pool) (hc : t.conn fd = none) : UpInv fd ⟨t, x⟩ := by
  refine ⟨htidy, fun p hp => ?_, fun p i hp => ?_⟩ <;>
  · cases hc.symm.trans hp

theorem UpInv.idle (htidy : Tidy t.pool) (hc : t.conn fd = some p) (hsvc : p.svc = .up)
    (hst : p.sendtask = none) (hrt : p.recvtask = none) : UpInv fd ⟨t, x⟩ := by
  refine ⟨htidy, fun q hq => ?_, fun q i hq hi => ?_⟩
  · cases hc.symm.trans hq
    exact ⟨hsvc, hst⟩
  · cases hc.symm.trans hq
    cases hrt.symm.trans hi

theorem UpInv.busy (htidy : Tidy t.pool) (hc : t.conn fd = some p) (hsvc : p.svc = .up)
    (hst : p.sendtask = none) (hrt : p.recvtask = some i) (ht : UpTask t x p i) :
    UpInv fd ⟨t, x⟩ := by
  refine ⟨htidy, fun q hq => ?_, fun q j hq hj => ?_⟩
  · cases hc.symm.trans hq
    exact ⟨hsvc, hst⟩
  · cases hc.symm.trans hq
    cases hrt.symm.trans hj
    exact ht

theorem begun_same (x : UpFile) (fd : Fd) (base : TaskBase) (s : Storage) :
    x.begun fd base s s = x := by
  unfold UpFile.begun
  cases s.recvtask fd <;> rfl

theorem begun_some {base : TaskBase} (h : s.recvtask fd = none) (h' : t.recvtask fd = some i) :
    x.begun fd base s t = ⟨(t.pool.node i).base.tmpfile, (t.pool.node i).base.filename,
      base.filemd5, base.fsize, []⟩ := by
  unfold UpFile.begun
  rw [h, h']

theorem recvtask_eq (hp : s.conn fd = some p) : s.recvtask fd = p.recvtask := by
  unfold Storage.recvtask
  rw [hp]
  rfl

theorem UpInv.no_task {s : UpSt} (h : UpInv fd s) (hp : s.store.conn fd = some p)
    (hst : p.sockStat ≠ .recvfileing) : p.recvtask = none := by
  cases hrt : p.recvtask with
  | none => rfl
  | some i => exact absurd (h.task p i hp hrt).receiving hst

theorem UpInv.pushed {s : UpSt} {h : SigHead} {base : TaskBase} (hi : UpInv fd s)
    (hp : s.store.conn fd = some p) (hrt : p.recvtask = none)
    (hctx : base.type ≠ TASK_DELFILE → p.ctx = md5.init)
    (hpush : Pushed cfg fd e h base p s.store t) :
    UpInv fd ⟨t, s.file.begun fd base s.store t⟩ := by
  obtain ⟨hsvc, hst⟩ := hi.svc p hp
  cases hpush with
  | query | full => exact .idle hi.tidy (conn_setPeer _ _ _) hsvc hst hrt
  | deleted hget htype hdel =>
    obtain ⟨htidy, -, hlt⟩ := hi.tidy.get hget
    exact .idle (((htidy.modify _ _).modify _ _).set hlt (by decide)) (conn_setPeer _ _ _) hsvc hst
      rfl
  | unopened hget htype =>
    obtain ⟨htidy, -, hlt⟩ := hi.tidy.get hget
    exact .idle ((((htidy.modify _ _).modify _ _).modify _ _).set hlt (by decide))
      (conn_setPeer _ _ _) hsvc hst rfl
  | opened hget htype hmd5 =>
    rename_i i pool b b' lfd ops k g
    obtain ⟨htidy, hfin, hlt⟩ := hi.tidy.get hget
    have hitem : (((pool.create i e.now b (pushSub p base) none).store i b' (pushSub p base)).node
        i).item = ⟨b', pushSub p base, e.now, none⟩ := by
      rw [Pool.store, node_modify_self, Pool.create, node_modify_self]
      rfl
    have hnew : (Storage.setPeer { s.store with
          pool := (pool.create i e.now b (pushSub p base) none).store i b' (pushSub p base)
          picIndex := k
          gIndex := g
          fs := s.store.fs ++ ops } fd
        { p with sockStat := .recvfileing, localInFd := lfd, recvtask := some i }).recvtask fd =
          some i := recvtask_eq (conn_setPeer _ _ _)
    have hstored :
        Tidy ((pool.create i e.now b (pushSub p base) none).store i b' (pushSub p base)) :=
      (htidy.modify _ _).modify _ _
    rw [begun_some ((recvtask_eq hp).trans hrt) hnew]
    refine .busy hstored (conn_setPeer _ _ _) hsvc hst rfl
      ⟨rfl, hctx htype, fun hmem => hfin (mem_of_get hget hmem), hlt, ⟨rfl, rfl, ?_⟩, ?_, ?_⟩
    · exact (congrArg (·.base.filemd5) hitem).trans hmd5
    · exact ⟨congrArg (·.sub.processlen) hitem, congrArg (·.sub.lastlen) hitem⟩
    · refine ⟨(congrArg (·.sub.operType) hitem).trans ?_, congrArg (·.sub.needSync) hitem⟩
      show p.svc.putOper = .upReq
      rw [hsvc]
      rfl

end Keep

/-! ## 2. What a call of `svc_recv` comes to -/

/-- The file after a call that wrote everything. -/
def UpFile.add (x : UpFile) (b : Mybuff) : UpFile := { x with written := x.written ++ b.contents }

def UpFile.count (x : UpFile) (i : NodeId) (p : Pool) : Pool :=
  p.store i (p.node i).base { (p.node i).sub with lastlen := x.written.length }

theorem Tidy.count {p : Pool} (h : Tidy p) (x : UpFile) (i : NodeId) : Tidy (x.count i p) :=
  ⟨h.apart, h.home, h.fin⟩

theorem item_count (x : UpFile) (i : NodeId) (pool : Pool) : ((x.count i pool).node i).item =
    ⟨(pool.node i).base, { (pool.node i).sub with lastlen := x.written.length },
      (pool.node i).born, (pool.node i).op⟩ := by
  rw [UpFile.count, Pool.store, node_modify_self]
  rfl

/-- What a call in RECVFILEING comes to for the task `i`: the file, and the storage. -/
inductive Received (cfg : Cfg) (fd : Fd) (e : Env) (p : Peer) (i : NodeId) (b : Mybuff) (x : UpFile)
    (s : Storage) : UpFile → Storage → Prop where
  | noData : Received cfg fd e p i b x s x s
  | writeErr : Received cfg fd e p i b x s x
      (s.setPeer fd (createPushRspErr cfg (ascii "write err " ++ e.errmsg) p))
  | more : Received cfg fd e p i b x s (x.add b)
      ({ s with pool := (x.add b).count i s.pool }.setPeer fd
        { p with ctx := md5.after (x.add b).written, recvtask := some i })
  | complete (hlen : (x.add b).written.length = x.fsize) :
      Received cfg fd e p i b x s (x.add b)
        (recvDone cfg e fd i (md5.after (x.add b).written) p
          { s with pool := (x.add b).count i s.pool }).2

section Receive

variable {cfg : Cfg} {fd : Fd} {e : Env} {p : Peer} {i : NodeId} {b : Mybuff} {x : UpFile}
variable {s : Storage}

theorem recvDone_ret (ctx : Md5Context) (s : Storage) :
    (recvDone cfg e fd i ctx p s).1 = .send := by
  unfold recvDone
  simp only
  split <;> rfl

theorem recvFile_received (cfg : Cfg) (hp : s.conn fd = some p) (hrt : p.recvtask = some i)
    (hsvc : p.svc = .up) (ht : UpTask s x p i) (hc : CleanCall x b e) :
    (recvFile cfg e fd b p s).1 ≠ .close ∧
      Received cfg fd e p i b x s (x.received fd b e s)
        (recvFile cfg e fd b p s).2 := by
  have hproc : (s.pool.node i).sub.processlen = x.fsize := ht.lengths.1
  have hlast : (s.pool.node i).sub.lastlen = x.written.length := ht.lengths.2
  have hoper : (s.pool.node i).sub.operType = p.svc.putOper := by
    rw [hsvc]
    exact ht.kind.1
  have hcall := svcRecvFile_clean (D := md5) (b := b) (x := ⟨(s.pool.node i).sub.processlen,
    (s.pool.node i).sub.lastlen, p.ctx, x.written⟩) hproc hlast ht.ctx hc.write
    hc.missing hc.short hc.all
  have hfile := svcRecvFile_file md5 e.write b
    (x := ⟨(s.pool.node i).sub.processlen, (s.pool.node i).sub.lastlen, p.ctx,
      x.written⟩) []
  have hreceived : x.received fd b e s = { x with written :=
      (svcRecvFile md5 e.write b ⟨(s.pool.node i).sub.processlen,
        (s.pool.node i).sub.lastlen, p.ctx, x.written⟩).2.2.file } := by
    rw [UpFile.received, hp]
    simp only [hrt]
  rw [hreceived, recvFile, hrt]
  simp only at hfile ⊢
  obtain ⟨hret, hlen, hctx⟩ := hfile
  generalize svcRecvFile md5 e.write b ⟨(s.pool.node i).sub.processlen,
    (s.pool.node i).sub.lastlen, p.ctx, []⟩ = r at hret hlen hctx ⊢
  obtain ⟨ret, b', x'⟩ := r
  rcases hcall with hcall | hcall | hcall
  · rw [hcall] at hret ⊢
    cases hret
    exact ⟨show RecvRet.addEpollin ≠ .close by decide, .noData⟩
  · rw [hcall] at hret ⊢
    cases hret
    simp only [if_pos hoper]
    exact ⟨show RecvRet.addEpollout ≠ .close by decide, .writeErr⟩
  rw [hcall] at hret hlen hctx ⊢
  simp only at hret hlen hctx
  by_cases hdone : x.fsize ≤ (x.written ++ b.contents).length
  · rw [if_pos hdone] at hret
    subst hret
    simp only [hlen, hctx]
    refine ⟨?_, @Received.complete cfg fd e p i b x s ?_⟩
    · rw [recvDone_ret]
      decide
    · have hmissing := hc.missing
      show ((x.written ++ b.contents).length : Int) = x.fsize
      rw [List.length_append] at hdone ⊢
      omega
  · rw [if_neg hdone] at hret
    subst hret
    simp only [hlen, hctx]
    exact ⟨show RecvRet.addEpollin ≠ .close by decide, @Received.more cfg fd e p i b x s⟩

end Receive

/-! ## 3. One step -/

section Step

variable {cfg : Cfg} {fd : Fd} {e e' : Env} {s t : Storage} {x : UpFile} {p : Peer} {i : NodeId}
variable {h : SigHead} {base : TaskBase} {b : Mybuff}

theorem next_recvMsg (hs : next cfg s (.recvMsg fd h base e e') = some t) :
    t = s ∧ (∀ p, s.conn fd = some p → p.sockStat = .recvfileing) ∨
      ∃ p ret u, s.conn fd = some p ∧ p.sockStat ≠ .recvfileing ∧
        doReq cfg e fd h base p s = .ok (ret, u) ∧ t = afterRecv e' fd (ret, u) := by
  have hstep := next_eq_some.mp hs
  simp only [step] at hstep
  cases hp : s.conn fd with
  | none =>
    simp only [hp] at hstep
    cases hstep
    exact .inl ⟨rfl, fun p h => by cases h⟩
  | some p =>
    simp only [hp] at hstep
    split at hstep
    · rename_i hst
      cases hstep
      refine .inl ⟨rfl, fun q hq => ?_⟩
      cases hq
      exact hst
    · rename_i hst
      cases hr : doReq cfg e fd h base p s with
      | error f =>
        rw [hr] at hstep
        cases hstep
      | ok r =>
        rw [hr] at hstep
        cases hstep
        exact .inr ⟨p, r.1, r.2, rfl, hst, hr, rfl⟩

theorem msg_cases {s : UpSt} (hi : UpInv fd s)
    (hs : next cfg s.store (.recvMsg fd h base e e') = some t) : t = s.store ∨
      (t.pool = s.store.pool ∧ t.fs = s.store.fs ∧ t.conn fd = none ∧
        ¬ (h.cmdid = CMD_PUT_FILE_REQ ∧ h.bodylen = BASE_SIZE)) ∨
      ∃ p, s.store.conn fd = some p ∧ p.recvtask = none ∧ h.cmdid = CMD_PUT_FILE_REQ ∧
        Pushed cfg fd e h base p s.store t := by
  rcases next_recvMsg hs with ⟨rfl, -⟩ | ⟨p, ret, u, hp, hst, hr, rfl⟩
  · exact .inl rfl
  obtain ⟨hsvc, hsend⟩ := hi.svc p hp
  have hrt := hi.no_task hp hst
  rcases doReq_up hsvc hrt hr with ⟨rfl, rfl, hput⟩ | ⟨hret, hcmd, hpush⟩
  · obtain ⟨hpool, hfs, hconn⟩ := doClose_idle hp hrt hsend e'
    exact .inr (.inl ⟨hpool, hfs, hconn, hput⟩)
  refine .inr (.inr ⟨p, hp, hrt, hcmd, ?_⟩)
  unfold afterRecv
  rw [if_neg hret]
  exact hpush

theorem data_cases {s : UpSt} (hi : UpInv fd s)
    (hc : s.store.recvtask fd ≠ none → CleanCall s.file b e)
    (hs : next cfg s.store (.recvData fd b e e') = some t) :
    t = s.store ∧ s.file.received fd b e s.store = s.file ∨
      (t.pool = s.store.pool ∧ t.fs = s.store.fs ∧ t.conn fd = none) ∨
      ∃ p i, s.store.conn fd = some p ∧ p.recvtask = some i ∧
        Received cfg fd e p i b s.file s.store (s.file.received fd b e s.store) t := by
  have hstep := next_eq_some.mp hs
  simp only [step] at hstep
  cases hp : s.store.conn fd with
  | none =>
    simp only [hp] at hstep
    cases hstep
    refine .inl ⟨rfl, ?_⟩
    rw [UpFile.received, hp]
  | some p =>
    obtain ⟨hsvc, hsend⟩ := hi.svc p hp
    simp only [hp] at hstep
    cases hrt : p.recvtask with
    | none =>
      split at hstep
      · cases hstep
        rw [recvFile, hrt]
        exact .inr (.inl (doClose_idle hp hrt hsend e'))
      cases hstep
      refine .inl ⟨rfl, ?_⟩
      rw [UpFile.received, hp]
      simp only [hrt]
    | some i =>
      have ht := hi.task p i hp hrt
      have hclean := hc (by rw [recvtask_eq hp, hrt]; exact Option.some_ne_none i)
      rw [if_pos ht.receiving] at hstep
      cases hstep
      obtain ⟨hne, hrec⟩ := recvFile_received cfg hp hrt hsvc ht hclean
      refine .inr (.inr ⟨p, i, rfl, hrt, ?_⟩)
      unfold afterRecv
      rw [if_neg hne]
      exact hrec

theorem recvDone_up {ctx : Md5Context} (hoper : (s.pool.node i).sub.operType = p.svc.putOper) :
    let r := closeTmpCheckMv e.fs (s.pool.node i).base p.localInFd ((md5.final ctx).1 ++ [e.behind])
    let q : Peer := { p with ctx := (md5.final ctx).2, recvtask := none }
    (recvDone cfg e fd i ctx p s).2 =
      if r.1 ≠ .ok then
        { s with fs := s.fs ++ r.2, pool := e.set i .fin (s.pool.over i OVER_E_MD5) }.setPeer fd
          (createPushRspErr cfg (ascii "md5 error " ++ e.errmsg) q)
      else
        { s with fs := s.fs ++ r.2, pool := e.set i .fin (s.pool.over i OVER_OK) }.setPeer fd
          { createPushRsp cfg (s.pool.node i).base q with localInFd := -1, sockStat := .idle } := by
  unfold recvDone
  simp only [if_pos hoper, Storage.log]
  split <;> rfl

theorem UpInv.received {s : UpSt} (hi : UpInv fd s) (hp : s.store.conn fd = some p)
    (hrt : p.recvtask = some i) (hrec : Received cfg fd e p i b s.file s.store x t) :
    UpInv fd ⟨t, x⟩ := by
  obtain ⟨hsvc, hst⟩ := hi.svc p hp
  have ht := hi.task p i hp hrt
  have htidy := hi.tidy.count (s.file.add b) i
  have hitem := item_count (s.file.add b) i s.store.pool
  cases hrec with
  | noData => exact hi
  | writeErr =>
    exact .busy hi.tidy (conn_setPeer _ _ _) hsvc hst hrt
      ⟨ht.receiving, ht.ctx, ht.unfinished, ht.allocated, ht.names, ht.lengths, ht.kind⟩
  | more =>
    refine .busy htidy (conn_setPeer _ _ _) hsvc hst rfl
      ⟨ht.receiving, rfl, ht.unfinished, ht.allocated, ?_, ?_, ?_⟩
    · simp only [Storage.setPeer, hitem]
      exact ht.names
    · simp only [Storage.setPeer, hitem]
      exact ⟨ht.lengths.1, trivial⟩
    · simp only [Storage.setPeer, hitem]
      exact ht.kind
  | complete hlen =>
    have hoper : (((s.file.add b).count i s.store.pool).node i).sub.operType = p.svc.putOper := by
      rw [hsvc]
      exact (congrArg (·.sub.operType) hitem).trans ht.kind.1
    have hset (o : UInt8) : Tidy (e.set i .fin (((s.file.add b).count i s.store.pool).over i o)) :=
      (htidy.modify _ _).set ht.allocated (by decide)
    rw [recvDone_up hoper]
    split
    · exact .idle (hset _) (conn_setPeer _ _ _) hsvc hst rfl
    · exact .idle (hset _) (conn_setPeer _ _ _) hsvc hst rfl

theorem UpInv.other {s : UpSt} (hi : UpInv fd s) (h : LeavesUpload fd s.store t) :
    UpInv fd ⟨t, s.file⟩ := by
  cases hc : t.conn fd with
  | none => exact .closed h.tidy hc
  | some p' =>
    rcases h.conn p' hc with ⟨ip, rfl⟩ | ⟨p, b, n, hp, rfl⟩
    · exact .idle h.tidy hc rfl rfl rfl
    obtain ⟨hsvc, hst⟩ := hi.svc p hp
    cases hrt : p.recvtask with
    | none => exact .idle h.tidy hc hsvc hst hrt
    | some i =>
      have ht := hi.task p i hp hrt
      obtain ⟨hitem, hfin, hlt⟩ := h.task _ i hc hrt
      refine .busy h.tidy hc hsvc hst hrt ⟨ht.receiving, ht.ctx, hfin, hlt, ?_, ?_, ?_⟩
      · rw [hitem]
        exact ht.names
      · rw [hitem]
        exact ht.lengths
      · rw [hitem]
        exact ht.kind

/-- **One step keeps the invariant.** -/
theorem UpInv.step {s s' : UpSt} {a : UpAct} (hi : UpInv fd s) (hok : Sound fd s a)
    (hs : upNext cfg fd s a = some s') : UpInv fd s' := by
  cases a with
  | msg h base e e' =>
    obtain ⟨t, ht, rfl⟩ := Option.map_eq_some_iff.mp hs
    rcases msg_cases hi ht with rfl | ⟨hpool, -, hconn, -⟩ | ⟨p, hp, hrt, hcmd, hpush⟩
    · rw [begun_same]
      exact hi
    · exact .closed (hpool ▸ hi.tidy) hconn
    refine hi.pushed hp hrt (fun htype => ?_) hpush
    have hctx := hok hcmd p hp
    rw [if_neg htype] at hctx
    exact hctx
  | data b e e' =>
    obtain ⟨t, ht, rfl⟩ := Option.map_eq_some_iff.mp hs
    rcases data_cases hi hok.2 ht with ⟨rfl, hx⟩ | ⟨hpool, -, hconn⟩ | ⟨p, i, hp, hrt, hrec⟩
    · rw [hx]
      exact hi
    · exact .closed (hpool ▸ hi.tidy) hconn
    · exact hi.received hp hrt hrec
  | other t =>
    cases hs
    exact hi.other hok

theorem upInv_of_run {s : UpSt} (h : Run (upNext cfg fd) (Sound fd) UpSt.init s) : UpInv fd s := by
  have htidy : Tidy Storage.init.pool := tidy_of_reach (.start : Reach (next cfg) _ _)
  exact h.inv (.closed htidy rfl) fun _ _ _ hi hok hs => hi.step hok hs

end Step

/-! ## 4. The reply, the replication and the operation -/

section Replied

variable {cfg : Cfg} {fd : Fd} {e : Env} {s s' : UpSt} {p : Peer} {i : NodeId}

def Together (cfg : Cfg) (fd : Fd) (s s' : UpSt) (a : UpAct) : Prop :=
  RepliesOk fd s.store s'.store ∧ HandsOver s.store s'.store ∧ Done cfg s s' a ∨
    ¬ RepliesOk fd s.store s'.store ∧ ¬ HandsOver s.store s'.store ∧ ¬ Done cfg s s' a

variable {a : UpAct}

theorem not_done_of_fs (h : s'.store.fs = s.store.fs) : ¬ Done cfg s s' a := by
  have hgrow {ops : List FsOp} (hne : ops ≠ []) : s'.store.fs ≠ s.store.fs ++ ops := by
    rw [h]
    exact fun he => hne (List.self_eq_append_right.mp he)
  cases a with
  | msg h base e e' =>
    intro hx
    obtain ⟨-, -, r, file, -, hfs⟩ := hx
    exact hgrow (by simp) hfs
  | data b e e' =>
    intro hx
    obtain ⟨-, -, ops, hfs⟩ := hx
    exact hgrow (by simp) hfs
  | other t => exact id

theorem together_of_same (h : s'.store = s.store) : Together cfg fd s s' a := by
  refine .inr ⟨?_, not_handsOver fun i hi => Or.inl (h ▸ hi), not_done_of_fs (by rw [h])⟩
  rw [h]
  cases hc : s.store.conn fd with
  | none => exact not_repliesOk_of_closed hc
  | some p => exact not_repliesOk_of_same hc hc rfl

theorem together_of_closed (hpool : s'.store.pool = s.store.pool)
    (hfs : s'.store.fs = s.store.fs) (hconn : s'.store.conn fd = none) : Together cfg fd s s' a :=
  Or.inr ⟨not_repliesOk_of_closed hconn, not_handsOver fun _ hi => Or.inl (hpool ▸ hi),
    not_done_of_fs hfs⟩

theorem together_of_pushed {h : SigHead} {base : TaskBase} {e' : Env} {t : Storage} {x : UpFile}
    (hi : UpInv fd s) (hp : s.store.conn fd = some p)
    (hq : ¬ (base.type = TASK_DELFILE ∧ h.status = ADD_QUERY_DIR))
    (hdel : base.type = TASK_DELFILE →
      slash ∈ base.filename ∧ e.fs.rename = true ∧ e.setLock .fin = true)
    (hpush : Pushed cfg fd e h base p s.store t) :
    Together cfg fd s ⟨t, x⟩ (.msg h base e e') := by
  cases hpush with
  | query hquery => exact absurd hquery hq
  | full hget =>
    exact .inr ⟨not_repliesOk_of_err hp (conn_setPeer _ _ _) rfl (by decide),
      not_handsOver fun _ hi => Or.inl hi, not_done_of_fs rfl⟩
  | deleted hget htype hdeleted =>
    rename_i i pool ret b ops rm k
    obtain ⟨hslash, hren, hlock⟩ := hdel htype
    obtain ⟨-, hfin, -⟩ := hi.tidy.get hget
    have hitem : ((e.set i .fin ((pool.create i e.now (pushBase e p base) (pushSub p base)
        none).over i OVER_OK)).node i).item =
          (⟨pushBase e p base, pushSub p base, e.now, none⟩ : Item).over OVER_OK := by
      rw [item_set, item_over, item_create]
    refine .inl ⟨repliesOk_of_rsp hp (conn_setPeer _ _ _) rfl rfl,
      ⟨i, hfin, mem_set_self hlock, congrArg (·.base.overstatus) hitem,
        congrArg (·.sub.needSync) hitem⟩, htype, hren, ?_⟩
    unfold deleteLocalfile at hdeleted
    split at hdeleted
    · cases hdeleted
    · rename_i hconv
      exact absurd hslash (storageConvert_none hconv)
    rename_i ret file hconv
    simp only [if_pos hren] at hdeleted
    cases hdeleted
    exact ⟨ret, file, hconv, rfl⟩
  | unopened hget htype =>
    refine .inr ⟨not_repliesOk_of_err hp (conn_setPeer _ _ _) rfl (by decide),
      not_handsOver fun j hj => Or.inl ?_, fun hd => htype hd.1⟩
    rcases mem_of_set hj with hj | hj
    · exact mem_of_get hget hj.1
    · cases hj.2.2
  | opened hget htype hmd5 =>
    exact .inr ⟨not_repliesOk_of_same hp (conn_setPeer _ _ _) rfl,
      not_handsOver fun j hj => Or.inl (mem_of_get hget hj), fun hd => htype hd.1⟩

theorem together_of_received {b : Mybuff} {e' : Env} {t : Storage} {x : UpFile} (hi : UpInv fd s)
    (hp : s.store.conn fd = some p) (hrt : p.recvtask = some i) (hlock : e.setLock .fin = true)
    (hc : CleanCall s.file b e) (hrec : Received cfg fd e p i b s.file s.store x t) :
    Together cfg fd s ⟨t, x⟩ (.data b e e') := by
  obtain ⟨hsvc, -⟩ := hi.svc p hp
  have ht := hi.task p i hp hrt
  cases hrec with
  | noData => exact together_of_same rfl
  | writeErr =>
    have hhead : (ascii "write err " ++ e.errmsg).head? ≠ some 79 :=
      show some 119 ≠ some 79 by decide
    exact .inr ⟨not_repliesOk_of_err hp (conn_setPeer _ _ _) rfl hhead,
      not_handsOver fun _ hi => Or.inl hi, not_done_of_fs rfl⟩
  | more =>
    exact .inr ⟨not_repliesOk_of_same hp (conn_setPeer _ _ _) rfl,
      not_handsOver fun _ hi => Or.inl hi, not_done_of_fs rfl⟩
  | complete hlen =>
    have hitem := item_count (s.file.add b) i s.store.pool
    have hoper : (((s.file.add b).count i s.store.pool).node i).sub.operType = p.svc.putOper := by
      rw [hsvc]
      exact (congrArg (·.sub.operType) hitem).trans ht.kind.1
    have hbase : (((s.file.add b).count i s.store.pool).node i).base = (s.store.pool.node i).base :=
      congrArg Item.base hitem
    rw [recvDone_up hoper, hbase]
    split
    · rename_i hbad
      have hhead : (ascii "md5 error " ++ e.errmsg).head? ≠ some 79 :=
        show some 109 ≠ some 79 by decide
      refine .inr ⟨not_repliesOk_of_err hp (conn_setPeer _ _ _) rfl hhead,
        not_handsOver fun j hj => ?_, ?_⟩
      · rcases mem_of_set hj with hj | ⟨-, rfl, -⟩
        · exact .inl hj.1
        right
        simp only [Storage.setPeer, item_set, item_over]
        exact show OVER_E_MD5 ≠ OVER_OK by decide
      · intro hx
        obtain ⟨-, hren, ops, hfs⟩ := hx
        exact hbad (closeTmpCheckMv_of_rename hren (List.append_cancel_left hfs))
    · rename_i hgood
      obtain ⟨hdigest, hren, ops, hops⟩ := closeTmpCheckMv_only (not_not.mp hgood)
      refine .inl ⟨repliesOk_of_rsp hp (conn_setPeer _ _ _) rfl rfl,
        ⟨i, ht.unfinished, mem_set_self hlock, ?_, ?_⟩, ⟨hlen, ?_⟩, hren, ops, ?_⟩
      · simp only [Storage.setPeer, item_set, item_over]
        rfl
      · simp only [Storage.setPeer, item_set, item_over, hitem]
        exact ht.kind.2
      · have hmd5 : (s.store.pool.node i).base.filemd5 = s.file.filemd5 := ht.names.2.2
        show md5.digest (s.file.add b).written = s.file.filemd5.dropLast
        rw [← hmd5]
        rcases hdigest with hd | ⟨m, hm, hd⟩
        · rw [← hd, List.dropLast_concat]
          rfl
        · rw [← hd, List.dropLast_concat, hc.reread m hm]
          rfl
      · show s.store.fs ++ _ = _
        rw [hops]
        have htmp : (s.store.pool.node i).base.tmpfile = s.file.tmpfile := ht.names.1
        have hname : (s.store.pool.node i).base.filename = s.file.path := ht.names.2.1
        rw [htmp, hname]
        rfl

/-- **"OK|" is answered exactly when the operation took effect, and exactly then a source task is
    handed over for replication.** -/
theorem replies_iff_done (cfg : Cfg) (fd : Fd) {s s' : UpSt}
    (h : Run (upNext cfg fd) (Sound fd) UpSt.init s) {a : UpAct} (hok : Sound fd s a)
    (ha : a.Handles) (hs : upNext cfg fd s a = some s') :
    (RepliesOk fd s.store s'.store ↔ Done cfg s s' a) ∧
      (HandsOver s.store s'.store ↔ Done cfg s s' a) := by
  have hi := upInv_of_run h
  have htogether : Together cfg fd s s' a := by
    cases a with
    | msg h base e e' =>
      obtain ⟨t, ht, rfl⟩ := Option.map_eq_some_iff.mp hs
      rcases msg_cases hi ht with rfl | ⟨-, -, -, hput⟩ | ⟨p, hp, -, hcmd, hpush⟩
      · exact together_of_same rfl
      · exact absurd ⟨ha.1, ha.2.1⟩ hput
      refine together_of_pushed hi hp ha.2.2 (fun htype => ?_) hpush
      have hdel := hok hcmd p hp
      rw [if_pos htype] at hdel
      exact hdel
    | data b e e' =>
      obtain ⟨t, ht, rfl⟩ := Option.map_eq_some_iff.mp hs
      rcases data_cases hi hok.2 ht with ⟨rfl, -⟩ | ⟨hpool, hfs, hconn⟩ | ⟨p, i, hp, hrt, hrec⟩
      · exact together_of_same rfl
      · exact together_of_closed hpool hfs hconn
      have hne : s.store.recvtask fd ≠ none := by
        rw [recvtask_eq hp, hrt]
        exact Option.some_ne_none i
      exact together_of_received hi hp hrt hok.1 (hok.2 hne) hrec
    | other t => exact absurd ha id
  rcases htogether with ⟨hr, hh, hd⟩ | ⟨hr, hh, hd⟩
  · exact ⟨iff_of_true hr hd, iff_of_true hh hd⟩
  · exact ⟨iff_of_false hr hd, iff_of_false hh hd⟩

def upAccepted : Storage := Storage.init.accept .up 3 5

/-- "ab" is announced as "/1/2/a", and arrives. -/
def announceTwoBytes : UpAct :=
  .msg (baseHead CMD_PUT_FILE_REQ 1)
    { smallBase TASK_ADDFILE (ascii "/1/2/a") with filemd5 := md5.digest [97, 98] ++ [0] }
    (smallEnv 9) (smallEnv 9)

def arriveTwoBytes : UpAct := .data (mybuffSetdata 16 mybuffInit [97, 98]) (smallEnv 9) (smallEnv 9)

theorem leavesUpload_accepted : LeavesUpload 3 Storage.init upAccepted where
  tidy := tidy_of_reach (reach_of_exec [.accept .up 3 5] .start rfl : Reach (next smallCfg) _ _)
  conn := fun p' hp => Or.inl ⟨5, (Option.some.inj hp).symm⟩
  task := by
    intro p i hp hrt
    cases hp
    cases hrt

def upAnnounced : UpSt :=
  (exec (upNext smallCfg 3) UpSt.init [.other upAccepted, announceTwoBytes]).getD UpSt.init

def upArrived : UpSt := (upNext smallCfg 3 upAnnounced arriveTwoBytes).getD UpSt.init

theorem upArrived_eq : upNext smallCfg 3 upAnnounced arriveTwoBytes = some upArrived := by
  have hsome : (upNext smallCfg 3 upAnnounced arriveTwoBytes).isSome = true := by decide +kernel
  obtain ⟨s', hs⟩ := Option.isSome_iff_exists.mp hsome
  rw [upArrived, hs]
  rfl

theorem replies_iff_done_two_bytes :
    upNext smallCfg 3 upAnnounced arriveTwoBytes = some upArrived ∧
    RepliesOk 3 upAnnounced.store upArrived.store ∧
    HandsOver upAnnounced.store upArrived.store := by
  have hmeets : Meets (upNext smallCfg 3) (Sound 3) UpSt.init
      [.other upAccepted, announceTwoBytes] := by
    refine ⟨leavesUpload_accepted, fun s hs => ⟨fun _ p hp => ?_, fun _ _ => trivial⟩⟩
    cases hs
    cases hp
    rfl
  have hrun : Run (upNext smallCfg 3) (Sound 3) UpSt.init upAnnounced :=
    run_of_exec [.other upAccepted, announceTwoBytes] .start hmeets rfl
  have hok : Sound 3 upAnnounced arriveTwoBytes := ⟨rfl, fun _ =>
    ⟨fun _ => Or.inl rfl, by decide +kernel, by decide, by decide +kernel, fun _ hm => by cases hm⟩⟩
  have hdone : Done smallCfg upAnnounced upArrived arriveTwoBytes :=
    ⟨⟨by decide +kernel, by decide +kernel⟩, rfl, [], by decide +kernel⟩
  obtain ⟨hreply, hhand⟩ := replies_iff_done smallCfg 3 hrun hok trivial upArrived_eq
  exact ⟨upArrived_eq, hreply.mpr hdone, hhand.mpr hdone⟩

/-- A delete of a file that does not exist. -/
def noFile : Env := { smallEnv 9 with fs := { smallFs with rename := false } }

def deleteMissing : Act :=
  .recvMsg 3 (baseHead CMD_PUT_FILE_REQ 0) (smallBase TASK_DELFILE (ascii "/1/2/a")) noFile noFile

/-- **A delete that fails is answered with "OK|" and replicated.** -/
theorem replies_undone : ∃ s t, Reach (next smallCfg) Storage.init s ∧
    next smallCfg s deleteMissing = some t ∧ RepliesOk 3 s t ∧ HandsOver s t ∧
    ∀ x y, ¬ Done smallCfg ⟨s, x⟩ ⟨t, y⟩ (.msg (baseHead CMD_PUT_FILE_REQ 0)
      (smallBase TASK_DELFILE (ascii "/1/2/a")) noFile noFile) := by
  refine ⟨_, _, reach_of_exec [.accept .up 3 5] .start rfl, rfl, ?_, ?_, ?_⟩
  · exact repliesOk_of_rsp rfl rfl rfl rfl
  · exact ⟨2047, by decide, by decide, rfl, rfl⟩
  · rintro x y ⟨-, hren, -⟩
    cases hren

end Replied

end Pfs
