/-
  The handlers of the data and upload services keep the invariant.

  A handler takes a node from TASK_Q_HOME or from its connection, changes its record and puts it
  into a queue, or leaves it with the connection. One lemma for each handler, from
  CMD_GET_FILE_RSP to `check_task`.
-/
import Pfs.Watch.Policy

namespace Pfs

open Lib Function

variable {W : Watch} {cfg : Cfg} {e : Env} {fd : Fd} {h : SigHead} {base : TaskBase} {p : Peer}
variable {s : Storage} {i : NodeId}

/-! ## 1. Finished tasks -/

variable {datadir : Path} {n : Item}

theorem queuedOk_fin (hmd5 : n.base.overstatus ≠ OVER_E_MD5)
    (hto : n.base.overstatus ≠ OVER_TIMEOUT) (ht : W.time → n.born ≤ n.base.starttime) :
    QueuedOk W datadir .fin n :=
  ⟨fun _ he => absurd he hmd5, fun hw _ => ⟨ht hw, hto⟩⟩

theorem queuedOk_clean : QueuedOk W datadir .clean n :=
  queuedOk_of_quiet (fun _ => trivial) (by decide)

theorem queuedOk_home : QueuedOk W datadir .home n :=
  queuedOk_of_quiet (fun _ => trivial) (by decide)

/-- What a node carries once `overstatus` has been set. -/
def Item.over (n : Item) (o : UInt8) : Item := { n with base := { n.base with overstatus := o } }

theorem item_over (pool : Pool) (i : NodeId) (o : UInt8) :
    ((pool.over i o).node i).item = (pool.node i).item.over o := by
  rw [Pool.over, node_modify_self]
  rfl

theorem item_store (pool : Pool) (i : NodeId) (b : TaskBase) (sub : TaskSub) :
    ((pool.store i b sub).node i).item = { (pool.node i).item with base := b, sub := sub } := by
  rw [Pool.store, node_modify_self]
  rfl

theorem item_create (pool : Pool) (i : NodeId) (now : Int) (b : TaskBase) (sub : TaskSub)
    (op : Option Nat) : ((pool.create i now b sub op).node i).item = ⟨b, sub, now, op⟩ := by
  rw [Pool.create, node_modify_self]
  rfl

theorem queuedOk_over {o : UInt8} (hmd5 : o ≠ OVER_E_MD5)
    (hto : o ≠ OVER_TIMEOUT) (ht : W.time → n.born ≤ n.base.starttime) :
    QueuedOk W datadir .fin (n.over o) :=
  queuedOk_fin hmd5 hto ht

theorem inTime_of_kept {b : TaskBase} (hk : n.base.starttime = b.starttime ∧
    n.base.overstatus = b.overstatus) (h : n.born ≤ b.starttime ∧ b.overstatus ≠ OVER_TIMEOUT) :
    InTime n := by
  unfold InTime
  rw [hk.1, hk.2]
  exact h

/-! ## 2. CMD_GET_FILE_RSP -/

theorem openTmpLocalfile4Write_kept {pre : Path} {fs : FsEnv} {g : Nat} {b : TaskBase}
    {ret : LocalRet} {lfd : Option Int} {b' : TaskBase} {g' : Nat} {ops : List FsOp}
    (ho : openTmpLocalfile4Write pre datadir fs g b = .ok (ret, lfd, b', g', ops)) :
    b'.starttime = b.starttime ∧ b'.overstatus = b.overstatus := by
  unfold openTmpLocalfile4Write at ho
  split at ho
  · cases ho
  · cases ho
    exact ⟨rfl, rfl⟩
  simp only at ho
  split at ho
  · cases ho
  · cases ho
    exact ⟨rfl, rfl⟩

theorem doRecvTask_watched (hi : Inv W cfg s) (hp : s.conn fd = some p) (he : EnvOk W cfg e)
    (hstamp : W.time → ∀ i, p.recvtask = some i → (s.pool.node i).base.filemd5 ≠ base.filemd5 →
      (s.pool.node i).born ≤ base.starttime ∧ base.overstatus ≠ OVER_TIMEOUT) :
    Yields (fun r => Inv W cfg r.2) (doRecvTask cfg e fd h base p s) := by
  unfold doRecvTask
  split
  · exact hi
  rename_i hst
  have hst : p.sockStat = .prepareRecvfile := not_not.mp hst
  have hne : p.sockStat ≠ .recvfileing := by simp [hst]
  split
  · trivial
  rename_i i hrecv
  have hslot : slots s.conn ⟨fd, .recv⟩ = some i := by simp [slots, hp, Peer.slot, hst, hrecv]
  obtain ⟨hown, hheld⟩ := hi.tasks.owned hslot (fun hk => by cases hk)
  split
  · refine hi.peer rfl rfl rfl ?_ (fun _ hn => absurd rfl hn) (adds_none rfl)
    rw [slots_recv hp hne ?_ ?_]
    · refine (hown.over _).retire (free (by decide)) (he.lock (by decide)) ?_
      rw [item_over]
      exact queuedOk_over (by decide) (by decide) fun ht => (hheld.time ht).1
    · simp
    · rfl
  simp only
  split
  · trivial
  rename_i lret lfd base0 gIndex ops ho
  have hconf (hw : W.path) := openTmpLocalfile4Write_confined ho (he.path hw).1
  split
  · refine hi.peer rfl rfl rfl ?_ (fun _ hn => absurd rfl hn) fun hw => ⟨ops, rfl, (hconf hw).1⟩
    rw [slots_recv hp hne ?_ ?_]
    · exact ((hown.store _ _).over _).retire (free (by decide)) (he.lock (by decide)) queuedOk_clean
    · exact hne
    · rfl
  rename_i hret
  refine hi.peer rfl rfl rfl ?_ (fun _ _ => .inr rfl) fun hw => ⟨ops, rfl, (hconf hw).1⟩
  rw [slots_file (i := i) hp ?_ ?_ ?_]
  · refine (hown.store _ _).open (by simp [slots, hp, Peer.slot, hst]) ?_
    rw [item_store]
    refine ⟨fun hw => (hconf hw).2 (not_not.mp hret), fun ht => ?_⟩
    have hkept := openTmpLocalfile4Write_kept ho
    by_cases hsame : (s.pool.node i).base.filemd5 = base.filemd5
    · rw [if_pos hsame] at hkept
      exact inTime_of_kept hkept (hheld.time ht)
    · rw [if_neg hsame] at hkept
      exact inTime_of_kept hkept (hstamp ht i hrecv hsame)
  · rfl
  · exact hrecv
  · rfl

/-! ## 3. CMD_GET_FILE_REQ -/

theorem sendStat_kept (e : Env) (base : TaskBase) :
    (sendStat e base).2.1.filename = base.filename ∧
      (sendStat e base).2.1.starttime = base.starttime := by
  unfold sendStat getLocalfileStat
  split
  · split
    · exact ⟨rfl, rfl⟩
    · simp only
      split <;> exact ⟨rfl, rfl⟩
  · exact ⟨rfl, rfl⟩

theorem sendStat_confined (hf : Confined datadir base.filename) :
    OpsConfined datadir (sendStat e base).2.2 := by
  unfold sendStat
  split
  · exact (getLocalfileStat_confined hf).1
  · exact .nil

theorem Inv.answer {t : Storage} {p' : Peer} (hi : Inv W cfg s) (hp : s.conn fd = some p)
    (hc : t.conn = update s.conn fd (some p')) (hx : t.toSig = { s.toSig with pool := t.pool })
    (htm : t.timers = s.timers) (hst : p'.sockStat = p.sockStat) (hr : p'.recvtask = p.recvtask)
    (hs : p'.sendtask = p.sendtask) (hpool : Held W cfg.datadir t.pool (slots s.conn))
    (hops : Adds W cfg s t) : Inv W cfg t := by
  refine hi.peer hc hx htm ?_ (fun hw => ?_) hops
  · rw [slots_same hp ?_]
    · exact hpool
    · intro k
      cases k <;> simp [Peer.slot, hst, hr, hs]
  · unfold BusyOk
    rw [hr, hst]
    exact hi.busy hw fd p hp

theorem doSendTask_watched (hi : Inv W cfg s) (hp : s.conn fd = some p)
    (hst : p.sockStat ≠ .recvfileing) (he : EnvOk W cfg e)
    (hfree : W.strict → p.recvtask = none ∧ p.sendtask = none)
    (hname : W.path → Confined cfg.datadir base.filename)
    (hstamp : W.time → e.now ≤ base.starttime) : Inv W cfg (doSendTask cfg e fd base p s) := by
  obtain ⟨hfile, htime⟩ := sendStat_kept e base
  have hops (hw : W.path) := sendStat_confined (e := e) (hname hw)
  have hread (hw : W.path) :
      OpsConfined cfg.datadir (openLocalfile4Read e.fs (sendStat e base).2.1).2 :=
    opsConfined_openRead (hfile ▸ hname hw)
  unfold doSendTask
  simp only
  split
  · exact hi.answer hp rfl rfl rfl rfl rfl rfl hi.tasks fun hw => ⟨_, rfl, hops hw⟩
  split
  · exact hi.answer hp rfl rfl rfl rfl rfl rfl hi.tasks fun hw => ⟨_, rfl, hops hw⟩
  rename_i i pool hget
  obtain ⟨hloose, -⟩ := Held.take hi.tasks (free (by decide)) hget
  have hnew := hloose.create e.now (sendStat e base).2.1
    (sendSub { p with sendLen := 0 } (sendStat e base).2.1) none
  have hborn : W.time → e.now ≤ (sendStat e base).2.1.starttime := fun ht => htime ▸ hstamp ht
  split
  · refine hi.answer hp rfl rfl rfl rfl rfl rfl ?_
      fun hw => ⟨_, List.append_assoc _ _ _, (hops hw).append (hread hw)⟩
    refine (hnew.over _).place (free (by decide)) (he.lock (by decide)) ?_
    rw [item_over, item_create]
    exact queuedOk_over (by decide) (by decide) hborn
  refine hi.peer rfl rfl rfl ?_ (fun hw hn => absurd (hfree hw).1 hn)
    fun hw => ⟨_, List.append_assoc _ _ _, (hops hw).append (hread hw)⟩
  rw [slots_send hp hst ?_ ?_]
  · have hdrop := (hnew.over OVER_UNKNOWN).drop (w := ⟨fd, .send⟩) fun hw => by
      simp [slots, hp, Peer.slot, (hfree hw).2]
    have hgive := hdrop.assign (e := e) (update_self _ _ _)
      (fun hw _ => he.strict hw .send (by decide)) (by
        rw [item_over, item_create]
        exact ⟨fun _ => trivial, fun ht =>
          ⟨hborn ht, show OVER_UNKNOWN ≠ OVER_TIMEOUT by decide⟩⟩)
    rw [update_idem] at hgive
    exact hgive
  · simp [sendRsp, Peer.say]
  · rfl

/-! ## 4. CMD_PUT_FILE_REQ -/

section Push

theorem pushBase_kept (b : TaskBase) :
    (pushBase e p b).starttime = e.now ∧ (pushBase e p b).overstatus = b.overstatus := by
  unfold pushBase
  split <;> exact ⟨rfl, rfl⟩

variable {pool : Pool} {pic : Svc → Nat} {ret : RecvRet} {t : Storage} (hi : Inv W cfg s)
  (hp : s.conn fd = some p) (hst : p.sockStat ≠ .recvfileing) (he : EnvOk W cfg e)
  (hfree : W.strict → p.recvtask = none)

include hi hp hst he hfree

theorem pushDelete_watched (hin : Loose W cfg.datadir pool (slots s.conn) i)
    (hborn : W.time → (pool.node i).item.born ≤ (pool.node i).item.base.starttime) :
    Yields (fun r => Inv W cfg r.2)
      (pushDelete cfg e fd i base { p with sockStat := .prepareRecvfile }
      { s with pool := pool, picIndex := pic }) := by
  unfold pushDelete
  split
  · trivial
  rename_i lret b' ops rm hdel
  obtain ⟨hops, hrm⟩ := deleteLocalfile_confined hdel
  refine ⟨(hi.toRest.timer hrm).peer rfl rfl rfl (fun _ hn => absurd rfl hn)
    fun _ => ⟨ops, rfl, hops⟩, ?_⟩
  show Held _ _ (e.set i .fin (pool.over i OVER_OK)) (slots (update s.conn fd _))
  rw [slots_recv hp hst ?_ ?_]
  · refine Loose.place ?_ (free (by decide)) (he.lock (by decide)) ?_
    · exact (hin.over _).drop fun hw => by simp [slots, hp, Peer.slot, hfree hw]
    · rw [item_over]
      exact queuedOk_over (by decide) (by decide) hborn
  · simp [createPushRsp, Peer.say]
  · rfl

theorem pushOpen_watched (hin : Loose W cfg.datadir pool (slots s.conn) i)
    (htime : W.time → InTime (pool.node i).item) :
    Yields (fun r => Inv W cfg r.2) (pushOpen cfg e fd i { p with sockStat := .prepareRecvfile }
      { s with pool := pool, picIndex := pic }) := by
  have hdrop : Loose W cfg.datadir pool (update (slots s.conn) ⟨fd, .recv⟩ none) i :=
    hin.drop fun hw => by simp [slots, hp, Peer.slot, hfree hw]
  unfold pushOpen
  simp only
  split
  · trivial
  rename_i lret lfd base0 gIndex ops ho
  have hconf (hw : W.path) := openTmpLocalfile4Write_confined ho (he.path hw).1
  split
  · refine hi.peer rfl rfl rfl ?_ (fun _ hn => absurd rfl hn) fun hw => ⟨ops, rfl, (hconf hw).1⟩
    show Held _ _ (e.set i .clean ((pool.store i base0 _).over i _)) _
    rw [slots_recv hp hst ?_ ?_]
    · exact ((hdrop.store _ _).over _).place (free (by decide)) (he.lock (by decide)) queuedOk_clean
    · simp [createPushRspErr, Peer.say]
    · rfl
  rename_i hret
  refine hi.peer rfl rfl rfl ?_ (fun _ _ => .inr rfl) fun hw => ⟨ops, rfl, (hconf hw).1⟩
  show Held _ _ (pool.store i base0 _) _
  rw [slots_file (i := i) hp ?_ ?_ ?_]
  · refine (hdrop.store _ _).hold (fun hk => by cases hk) ?_ ?_
    · rw [update_of_ne (fun hn => by cases hn)]
      simp [slots, hp, Peer.slot, hst]
    · rw [item_store]
      exact ⟨fun hw => (hconf hw).2 (not_not.mp hret),
        fun ht => inTime_of_kept (openTmpLocalfile4Write_kept ho) (htime ht)⟩
  · rfl
  · rfl
  · rfl

theorem doPushTask_watched (hover : W.time → base.overstatus ≠ OVER_TIMEOUT) :
    Yields (fun r => Inv W cfg r.2) (doPushTask cfg e fd h base p s) := by
  unfold doPushTask
  split
  · exact hi.answer hp rfl rfl rfl rfl rfl rfl hi.tasks (adds_none rfl)
  unfold pushTask
  simp only
  split
  · refine hi.peer rfl rfl rfl ?_ (fun _ _ => .inl rfl) (adds_none rfl)
    rw [slots_same hp ?_]
    · exact hi.tasks
    · intro k
      cases k <;> simp [Peer.slot, createPushRspErr, Peer.say, hst]
  rename_i i pool hget
  obtain ⟨hloose, -⟩ := hi.tasks.take (free (by decide)) hget
  split
  · trivial
  rename_i name k hname
  have hnew := hloose.create e.now
    (pushBase e { p with sockStat := .prepareRecvfile } { base with filename := name })
    (pushSub { p with sockStat := .prepareRecvfile } { base with filename := name }) none
  have hkept := pushBase_kept (e := e) (p := { p with sockStat := .prepareRecvfile })
    { base with filename := name }
  have htime : W.time → InTime (((pool.create i e.now
      (pushBase e { p with sockStat := .prepareRecvfile } { base with filename := name })
      (pushSub { p with sockStat := .prepareRecvfile } { base with filename := name })
      none).node i).item) := by
    intro ht
    rw [item_create]
    exact ⟨Int.le_of_eq hkept.1.symm, fun hn => hover ht (hkept.2.symm.trans hn)⟩
  split
  · exact pushDelete_watched hi hp hst he hfree hnew fun ht => (htime ht).1
  · exact pushOpen_watched hi hp hst he hfree hnew htime

end Push

/-! ## 5. The command switch -/

section Receive

variable (hi : Inv W cfg s) (hp : s.conn fd = some p)

include hi hp

theorem doReq_watched {e' : Env} (hst : p.sockStat ≠ .recvfileing) (he : EnvOk W cfg e)
    (hok : StepOk W cfg s (.recvMsg fd h base e e')) :
    Yields (fun r => Inv W cfg r.2) (doReq cfg e fd h base p s) := by
  unfold doReq
  split
  · rename_i hrsp
    split
    · exact hi
    · refine doRecvTask_watched hi hp he fun ht i hrecv => ?_
      exact (hok.time ht).2.1 hrsp p i hp hrecv
  split
  · rename_i hreq
    split
    · exact hi
    · exact doSendTask_watched hi hp hst he (fun hs => ((hok.strict hs).2 p hp).1 hreq.1)
        (fun hw => (hok.path hw).2 hreq.1) fun ht => (hok.time ht).1 hreq.1
  · split
    · rename_i hput
      split
      · exact hi
      · exact doPushTask_watched hi hp hst he (fun hs => ((hok.strict hs).2 p hp).2 hput)
          fun ht => (hok.time ht).2.2 hput
    · exact hi

/-! ## 6. File bytes -/

theorem recvDone_watched {ctx : Md5Context} {pool : Pool} (hst : p.sockStat = .recvfileing)
    (he : EnvOk W cfg e) (hown : OwnedBy W cfg.datadir pool (slots s.conn) i ⟨fd, .file⟩)
    (hheld : HeldOk W cfg.datadir .file (pool.node i).item) :
    Inv W cfg (recvDone cfg e fd i ctx p { s with pool := pool }).2 := by
  have hops (hw : W.path) (lfd : Int) (digest : List UInt8) : OpsConfined cfg.datadir
      (closeTmpCheckMv e.fs (pool.node i).base lfd digest).2 :=
    closeTmpCheckMv_confined (hheld.path hw).1 (hheld.path hw).2
  unfold recvDone
  simp only
  split
  · refine hi.peer rfl rfl rfl ?_ (fun _ hn => ?_) fun hw => ⟨_, rfl, hops hw _ _⟩
    · show Held _ _ (e.set i .fin (pool.over i OVER_E_MD5)) _
      rw [slots_received hp hst ?_ ?_]
      · refine (hown.over _).retire (free (by decide)) (he.lock (by decide)) ?_
        rw [item_over]
        -- the task may be tried again, with the names it has now
        exact ⟨fun hw _ => ⟨.inr (hheld.path hw).2, .inl (hheld.path hw).1⟩,
          fun ht _ => ⟨(hheld.time ht).1, show OVER_E_MD5 ≠ OVER_TIMEOUT by decide⟩⟩
      · split <;> rfl
      · split <;> rfl
    · exact absurd (by split <;> rfl) hn
  · refine hi.peer rfl rfl rfl ?_ (fun _ hn => ?_) fun hw => ⟨_, rfl, hops hw _ _⟩
    · show Held _ _ (e.set i .fin (pool.over i OVER_OK)) _
      rw [slots_received hp hst ?_ ?_]
      · refine (hown.over _).retire (free (by decide)) (he.lock (by decide)) ?_
        rw [item_over]
        exact queuedOk_over (by decide) (by decide) fun ht => (hheld.time ht).1
      · show (if _ then createPushRsp cfg _ _ else _ : Peer).recvtask = none
        split <;> rfl
      · show (if _ then createPushRsp cfg _ _ else _ : Peer).sendtask = p.sendtask
        split <;> rfl
    · refine absurd ?_ hn
      show (if _ then createPushRsp cfg _ _ else _ : Peer).recvtask = none
      split <;> rfl

theorem recvFile_watched {b : Mybuff} (hst : p.sockStat = .recvfileing) (he : EnvOk W cfg e) :
    Inv W cfg (recvFile cfg e fd b p s).2 := by
  unfold recvFile
  split
  · exact hi
  rename_i i hrecv
  have hslot : slots s.conn ⟨fd, .file⟩ = some i := by simp [slots, hp, Peer.slot, hst, hrecv]
  obtain ⟨hown, hheld⟩ := hi.tasks.owned hslot (fun hk => by cases hk)
  have hstore (sub : TaskSub) : OwnedBy W cfg.datadir (s.pool.store i (s.pool.node i).base sub)
      (slots s.conn) i ⟨fd, .file⟩ ∧
      HeldOk W cfg.datadir .file ((s.pool.store i (s.pool.node i).base sub).node i).item := by
    rw [item_store]
    exact ⟨hown.store _ _, hheld.path, hheld.time⟩
  simp only
  split
  · exact hi
  · split
    · exact hi.answer hp rfl rfl rfl rfl rfl rfl hi.tasks (adds_none rfl)
    · exact hi.answer hp rfl rfl rfl rfl rfl rfl hi.tasks (adds_none rfl)
  · refine hi.answer hp rfl rfl rfl rfl rfl rfl ?_ (adds_none rfl)
    exact (hstore _).1.keep (hstore _).2
  · exact recvDone_watched hi hp hst he (hstore _).1 (hstore _).2

/-! ## 7. Sending and closing -/

theorem svcSend_watched (he : EnvOk W cfg e) :
    Yields (fun r => Inv W cfg r.2) (svcSend e fd p s) := by
  unfold svcSend
  split
  · exact hi
  split
  · rename_i hst
    split
    · trivial
    rename_i i hsend
    have hslot : slots s.conn ⟨fd, .send⟩ = some i := by simp [slots, hp, Peer.slot, hsend]
    obtain ⟨hown, hheld⟩ := hi.tasks.owned hslot (fun hk => by cases hk)
    refine hi.peer rfl rfl rfl ?_ (fun hw hn => ?_) (adds_none rfl)
    · rw [slots_send hp (by simp [hst]) ?_ ?_]
      · refine (hown.over _).retire (free (by decide)) (he.lock (by decide)) ?_
        rw [item_over]
        refine queuedOk_over ?_ ?_ fun ht => (hheld.time ht).1
        · split <;> decide
        · split <;> decide
      · simp
      · rfl
    · -- a connection that sends has no receive task
      have hbusy := hi.busy hw fd p hp hn
      simp [hst] at hbusy
  · exact hi

end Receive

theorem finiSend_stored (h : Held W cfg.datadir s.pool (slots s.conn))
    (hp : s.conn fd = some p) (he : EnvOk W cfg e) :
    Held W cfg.datadir (finiSend e p s).pool
      (update (slots s.conn) ⟨fd, .send⟩ none) := by
  have hslot : slots s.conn ⟨fd, .send⟩ = p.sendtask := by simp [slots, hp, Peer.slot]
  unfold finiSend
  split
  · rename_i hnone
    rw [← hslot.trans hnone, update_eq_self]
    exact h
  rename_i i hsend
  obtain ⟨hown, hheld⟩ := h.owned (hslot.trans hsend) (fun hk => by cases hk)
  refine (hown.over _).retire (free (by decide)) (he.lock (by decide)) ?_
  rw [item_over]
  exact queuedOk_over (by decide) (by decide) fun ht => (hheld.time ht).1

theorem heldOk_waits {k : Kind} (hk : k = .recv ∨ k = .file) (h : HeldOk W datadir k n)
    (hw : W.path) :
    Confined datadir n.base.filename ∧ (n.base.tmpfile = [] ∨ Confined datadir n.base.tmpfile) := by
  have hp := h.path hw
  rcases hk with rfl | rfl
  · exact hp
  · exact ⟨hp.1, .inr hp.2⟩

theorem finiRecv_stored {sl : Slot → Option NodeId} {w : Slot}
    (h : Held W cfg.datadir s.pool sl) (hw : sl w = p.recvtask)
    (hk : w.kind = .recv ∨ w.kind = .file) (he : EnvOk W cfg e) :
    Held W cfg.datadir (finiRecv e p s).pool (update sl w none) ∧
      Adds W cfg s (finiRecv e p s) := by
  unfold finiRecv
  split
  · rename_i hnone
    rw [← hw.trans hnone, update_eq_self]
    exact ⟨h, adds_none rfl⟩
  rename_i i hrecv
  obtain ⟨hown, hheld⟩ := h.owned (hw.trans hrecv) fun hn => by simp [hn] at hk
  have hops : W.path → OpsConfined cfg.datadir (realRmFile (s.pool.node i).base.tmpfile) := by
    intro hpath
    unfold realRmFile
    split
    · exact .nil
    · rename_i hne
      exact opsConfined_unlink ((heldOk_waits hk hheld hpath).2.resolve_left hne)
  simp only
  split
  · refine ⟨(hown.modify _).retire (free (by decide)) (he.lock (by decide)) ?_,
      fun hpath => ⟨_, rfl, hops hpath⟩⟩
    rw [node_modify_self]
    refine ⟨fun hpath => ?_, fun ht _ => hheld.time ht⟩
    obtain ⟨hfile, htmp⟩ := heldOk_waits hk hheld hpath
    exact ⟨htmp, .inl hfile⟩
  · refine ⟨(hown.over _).retire (free (by decide)) (he.lock (by decide)) ?_,
      fun hpath => ⟨_, rfl, hops hpath⟩⟩
    show QueuedOk _ _ _ ((s.pool.over i OVER_UP_ERR).node i).item
    rw [item_over]
    exact queuedOk_over (by decide) (by decide) fun ht => (hheld.time ht).1

/-- The slot of a connection's receive task. -/
def Peer.recvKind (p : Peer) : Kind := if p.sockStat = .recvfileing then .file else .recv

theorem recvKind_eq (p : Peer) : p.recvKind = .recv ∨ p.recvKind = .file := by
  unfold Peer.recvKind
  split <;> simp

theorem slot_recvKind (p : Peer) : p.slot p.recvKind = p.recvtask := by
  unfold Peer.recvKind
  split
  · rename_i hst
    simp [Peer.slot, hst]
  · rename_i hst
    simp [Peer.slot, hst]

theorem slots_closed {conn : Fd → Option Peer} (hp : conn fd = some p) :
    slots (update conn fd none) =
      update (update (slots conn) ⟨fd, .send⟩ none) ⟨fd, p.recvKind⟩ none := by
  funext ⟨g, k⟩
  by_cases hg : g = fd
  · subst hg
    by_cases hst : p.sockStat = .recvfileing
    · cases k <;> simp [slots, Peer.recvKind, Peer.slot, hp, hst]
    · cases k <;> simp [slots, Peer.recvKind, Peer.slot, hp, hst]
  · simp [slots, hg]

theorem svcFiniconn_watched (hi : Inv W cfg s) (hp : s.conn fd = some p) (he : EnvOk W cfg e) :
    Inv W cfg (svcFiniconn e fd p s) := by
  obtain ⟨hcs, hxs, hts, hfs⟩ := finiSend_frame e p s
  obtain ⟨hcr, hxr, htr⟩ := finiRecv_frame e p (finiSend e p s)
  have hrecv : update (slots s.conn) ⟨fd, .send⟩ none ⟨fd, p.recvKind⟩ = p.recvtask := by
    have hne : p.recvKind ≠ .send := by
      rcases recvKind_eq p with hk | hk <;> simp [hk]
    rw [update_of_ne fun hn => hne (Slot.mk.inj hn).2, ← slot_recvKind p]
    simp [slots, hp]
  obtain ⟨hstored, hadds⟩ := finiRecv_stored (finiSend_stored hi.tasks hp he) hrecv
    (recvKind_eq p) he
  have hrest : Rest W cfg (finiRecv e p (finiSend e p s)) := by
    refine hi.toRest.work (hcr.trans hcs) (by rw [hxr, hxs]) (htr.trans hts) fun hw => ?_
    rw [← hfs]
    exact hadds hw
  refine ⟨{ hrest with busy := fun hw g r hr => ?_ }, ?_⟩
  · change update (finiRecv e p (finiSend e p s)).conn fd none g = some r at hr
    by_cases hg : g = fd
    · rw [hg, update_self] at hr
      cases hr
    · rw [update_of_ne hg] at hr
      exact hrest.busy hw g r hr
  · show Held _ _ (finiRecv e p (finiSend e p s)).pool (slots (update _ fd none))
    rw [hcr, hcs, slots_closed hp]
    exact hstored

theorem doClose_watched (hi : Inv W cfg s) (he : EnvOk W cfg e) : Inv W cfg (s.doClose e fd) := by
  unfold Storage.doClose
  split
  · exact hi
  · rename_i hp
    exact svcFiniconn_watched hi hp he

theorem afterRecv_watched {r : RecvRet × Storage} (hi : Inv W cfg r.2) (he : EnvOk W cfg e) :
    Inv W cfg (afterRecv e fd r) := by
  unfold afterRecv
  split
  · exact doClose_watched hi he
  · exact hi

theorem doSend_watched {data file : SendRes} (hi : Inv W cfg s) (hp : s.conn fd = some p)
    (he : EnvOk W cfg e) : Yields (Inv W cfg) (doSend e fd data file p s) :=
  doSend_outcome (fun _ _ => hi.answer hp rfl rfl rfl rfl rfl rfl hi.tasks (adds_none rfl))
    (fun _ _ hp ht => svcSend_watched ht hp he) fun _ _ hp ht => svcFiniconn_watched ht hp he

end Pfs
