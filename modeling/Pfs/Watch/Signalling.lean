/-
  The signalling service, the expiry and the operator's commands keep the invariant.

  They leave the connections of the two other services alone, so their lemmas are about `SigInv`
  for arbitrary slots. `do_fin_task` and the directory thread create tasks while they have a node
  in hand; that node is put aside meanwhile. What touches the delayed tasks is not compared with
  an earlier state.
-/
import Pfs.Watch.DataCheck

namespace Pfs

open Lib

variable {W : Watch} {cfg : Cfg} {e : Env} {sl : Slot → Option NodeId} {g : Sig} {i : NodeId}

/-! ## 1. Finished tasks -/

variable {q : TaskQ} {base : TaskBase} {envs : Nat → Env} {k n : Nat} {p : Pool}

theorem queuedOk_timed {datadir : Path} {n : Item} (hq : ∀ b, PathQueued datadir q b)
    (ht : W.time → InTime n) : QueuedOk W datadir q n :=
  ⟨fun _ => hq _, fun hw _ => ht hw⟩

theorem createDelayTask_watched (ip : UInt32) (op : Nat) (hg : SigInv W cfg sl g)
    (href : W.ref = none) (he : EnvOk W cfg e) (hover : W.time → base.overstatus ≠ OVER_TIMEOUT) :
    SigInv W cfg sl (createDelayTask e ip op base g).2 ∧
      (createDelayTask e ip op base g).1.overstatus = base.overstatus := by
  unfold createDelayTask
  split
  · exact ⟨hg, rfl⟩
  rename_i i pool hget
  obtain ⟨hin, -⟩ := hg.tasks.take (free (by decide)) hget
  refine ⟨hg.work ((hin.create _ _ _ _).place (free_of_ref href (by decide)) (he.lock (by decide))
    ?_), rfl⟩
  rw [item_create]
  exact queuedOk_timed (fun _ => trivial) fun ht => ⟨Int.le_refl _, hover ht⟩

theorem syncMembers_watched {op : Nat} {ms : List Member} (hg : SigInv W cfg sl g)
    (href : W.ref = none) (he : ∀ k, EnvOk W cfg (envs k))
    (hover : W.time → base.overstatus ≠ OVER_TIMEOUT) :
    SigInv W cfg sl (syncMembers cfg envs op ms k base g).2 := by
  induction ms generalizing k base g with
  | nil => exact hg
  | cons m ms ih =>
    unfold syncMembers
    split
    · exact ih hg hover
    have howed : SigInv W cfg sl { g with owed := g.owed ++ [(op, m.ip)] } :=
      ⟨hg.tasks, hg.expired, marked_of_ref href _⟩
    simp only
    split
    · obtain ⟨hdelay, hkept⟩ := createDelayTask_watched m.ip op howed href (he k) hover
      exact ih hdelay fun ht => hkept ▸ hover ht
    · exact ih ⟨hg.tasks, hg.expired, marked_of_ref href _⟩ hover

theorem finOne_watched (hin : Loose W cfg.datadir g.pool sl i)
    (hx : W.time → ∀ x ∈ g.expired, cfg.taskTimeout < x.now - x.born)
    (hq : QueuedOk W cfg.datadir .fin (g.pool.node i).item) (href : W.ref = none)
    (he : ∀ k, EnvOk W cfg (envs k)) (hsl : sl ⟨0, .hand⟩ = none) :
    SigInv W cfg sl (finOne cfg envs i g) := by
  unfold finOne
  simp only
  split
  · rename_i hagain
    have hmd5 : (g.pool.node i).base.overstatus = OVER_E_MD5 := by
      simp only [Tasklist.again, Bool.and_eq_true, beq_iff_eq] at hagain
      exact hagain.1.1
    refine ⟨(hin.store _ _).place (free (by decide)) ((he 0).lock (by decide)) ?_, hx,
      marked_of_ref href _⟩
    rw [item_store]
    refine ⟨fun hw => hq.path hw hmd5, fun ht _ => ⟨(hq.time ht (by decide)).1, ?_⟩⟩
    show OVER_UNKNOWN ≠ OVER_TIMEOUT
    decide
  · split
    · -- while the members are served, the node is aside
      have haside : SigInv W cfg (Function.update sl ⟨0, .hand⟩ (some i))
          { g with popped := g.popped + 1 } := ⟨hin.aside 0 hsl, hx, marked_of_ref href _⟩
      have hmembers : SigInv W cfg _ (syncTask2Domain cfg (fun k => envs (k + 1))
          (g.pool.node i).base g).2 :=
        syncMembers_watched haside href (fun k => he (k + 1)) fun ht => (hq.time ht (by decide)).2
      exact ⟨hmembers.tasks.putBack hsl (free (by decide)) ((he 0).lock (by decide)) _
        queuedOk_clean, hmembers.expired, marked_of_ref href _⟩
    · exact ⟨hin.place (free (by decide)) ((he 0).lock (by decide)) queuedOk_clean, hx,
        marked_of_ref href _⟩

theorem finLoop_watched {envs : Nat → Nat → Env} (hg : SigInv W cfg sl g)
    (href : W.ref = none) (he : ∀ k n, EnvOk W cfg (envs k n)) (hsl : sl ⟨0, .hand⟩ = none) :
    SigInv W cfg sl (finLoop cfg envs n k g) := by
  induction n generalizing k g with
  | zero => exact hg
  | succ n ih =>
    unfold finLoop
    split
    · exact hg
    rename_i i pool hget
    obtain ⟨hin, hq⟩ := hg.tasks.take (free (by decide)) hget
    exact ih (finOne_watched hin hg.expired (hq.resolve_left (by decide)) href (he k) hsl)

/-! ## 2. `check_task` -/

theorem checkSyncLoop_watched (hg : SigInv W cfg sl g)
    (he : ∀ k, EnvOk W cfg (envs k)) : SigInv W cfg sl (checkSyncLoop envs n k g) := by
  induction n generalizing k g with
  | zero => exact hg
  | succ n ih =>
    unfold checkSyncLoop
    split
    · exact hg
    rename_i i pool hget
    obtain ⟨hin, -⟩ := hg.tasks.take (free (by decide)) hget
    have hhome := hin.place (free (by decide)) ((he k).lock (by decide)) queuedOk_home
    refine ih ?_
    unfold checkSyncOne
    simp only
    split
    · exact hg.work hhome
    · exact ⟨hhome, hg.expired, fun r hr => ((hg.marks r hr).pool _).say _ rfl⟩

theorem SameMarks.dispatch {r : Sig} (h : SameMarks r g) (peer : SigPeer) (base : TaskBase)
    (status : UInt8) : SameMarks r (g.doDispatchTask peer base status none) := by
  have hsay := h.say peer.fd (m := ⟨none, createSigMsg NEWTASK_REQ status base.bytes BASE_SIZE⟩) rfl
  exact { hsay with puts := (List.append_nil _).trans hsay.puts }

/-- A delayed task is dispatched or parked. The files of a directory are not among the tasks that
    are compared. -/
theorem delayOne_watched {dir : Bool} (hin : Loose W cfg.datadir g.pool sl i)
    (hx : W.time → ∀ x ∈ g.expired, cfg.taskTimeout < x.now - x.born) (hm : Marked W g)
    (ht : W.time → InTime (g.pool.node i).item) (href : W.ref = none ∨ dir = true)
    (he : EnvOk W cfg e) : SigInv W cfg sl (delayOne e dir i g) := by
  unfold delayOne
  simp only
  split
  · refine ⟨?_, hx, fun r hr => (hm r hr).pool _⟩
    cases dir with
    | true =>
      exact hin.place (free (by decide)) (he.lock (by decide))
        (queuedOk_timed (fun _ => trivial) ht)
    | false =>
      exact hin.place (free_of_ref (href.resolve_right (by decide)) (by decide))
        (he.lock (by decide)) (queuedOk_timed (fun _ => trivial) ht)
  · refine ⟨hin.place (free (by decide)) (he.lock (by decide)) queuedOk_home, hx, fun r hr => ?_⟩
    rcases href with href | rfl
    · exact absurd hr (href ▸ fun hn => by cases hn)
    · exact ((hm r hr).dispatch _ _ _).pool _

theorem delayLoop_watched (hg : SigInv W cfg sl g)
    (href : W.ref = none) (he : ∀ k, EnvOk W cfg (envs k)) :
    SigInv W cfg sl (delayLoop envs n k g) := by
  induction n generalizing k g with
  | zero => exact hg
  | succ n ih =>
    unfold delayLoop
    split
    · rename_i i pool hget
      obtain ⟨hin, hq⟩ := hg.tasks.take (free_of_ref href (by decide)) hget
      have hq := hq.resolve_left (by decide)
      exact ih (delayOne_watched hin hg.expired (marked_of_ref href _)
        (fun ht => hq.time ht (by decide)) (.inl href) (he k))
    · split
      · rename_i i pool hget
        obtain ⟨hin, hq⟩ := hg.tasks.take (free (by decide)) hget
        have hq := hq.resolve_left (by decide)
        exact ih (delayOne_watched hin hg.expired (marked_of_ref href _)
        (fun ht => hq.time ht (by decide)) (.inl href) (he k))
      · exact hg

theorem sigCheckTask_watched {v : PassEnv} (hg : SigInv W cfg sl g) (href : W.ref = none)
    (he : ∀ e, (Act.sigCheck v).Uses e → EnvOk W cfg e) (hsl : sl ⟨0, .hand⟩ = none) :
    SigInv W cfg sl (sigCheckTask cfg v g) := by
  have hunpark (k : Nat) := he (v.unpark k) (.inl ⟨k, .inl rfl⟩)
  have hunparkDir (k : Nat) := he (v.unparkDir k) (.inl ⟨k, .inr (.inl rfl)⟩)
  have hdelay (k : Nat) := he (v.delay k) (.inl ⟨k, .inr (.inr (.inl rfl))⟩)
  have hrsp (k : Nat) := he (v.rsp k) (.inl ⟨k, .inr (.inr (.inr rfl))⟩)
  have hfin (k n : Nat) := he (v.fin k n) (.inr ⟨k, n, rfl⟩)
  unfold sigCheckTask doCheckSyncTask doFinTask
  simp only
  refine checkSyncLoop_watched
    (finLoop_watched (delayLoop_watched (hg.work ?_) href hdelay) href hfin
    hsl) hrsp
  refine moveAll_stored (moveAll_stored hg.tasks (free_of_ref href (by decide))
    (free_of_ref href (by decide)) (by decide) (fun k => (hunpark k).lock (by decide)) ?_)
    (free (by decide)) (free (by decide)) (by decide)
    (fun k => (hunparkDir k).lock (by decide)) ?_
  · exact fun x hx => queuedOk_timed (fun _ => trivial) fun ht => hx.time ht (by decide)
  · exact fun x hx => queuedOk_timed (fun _ => trivial) fun ht => hx.time ht (by decide)

/-! ## 3. Expiry and the agent -/

theorem InHand.uncount {P : Place → Item → Prop} {l : Place} (h : InHand P p sl i l) :
    InHand P (p.uncount i) sl i l := by
  unfold Pool.uncount
  split
  · exact h.count _ _
  · exact h

theorem q_uncount (p : Pool) (i : NodeId) : (p.uncount i).q = p.q := by
  unfold Pool.uncount
  split <;> rfl

theorem Framed.uncount (h : Framed W p) : Framed W (p.uncount i) := by
  unfold Pool.uncount
  split
  · exact fun r hr => ⟨(h r hr).queue, (h r hr).item⟩
  · exact h

theorem sendHome_held {datadir : Path} (hq : Free W q)
    (hin : InHand (Policy W datadir) p sl i ⟨some q, none⟩) (hf : Framed W p)
    (hlock : W.strict → e.setLock .home = true) : Held W datadir (sendHome e i p) sl := by
  have hframe : Framed W (p.unlink i) := by
    refine fun r hr => (hf r hr).unlink (hin.apart fun q' hd hn => ?_)
    rw [hq.2 (Option.some.inj hn ▸ hd)] at hr
    cases hr
  have hloose : Loose W datadir ((p.unlink i).uncount i) sl i :=
    ⟨hin.unlink.uncount, hframe.uncount⟩
  exact (hloose.store _ _).place (free (by decide)) hlock queuedOk_home

theorem mem_sendHome {j : NodeId} (hj : j ≠ i) (h : j ∈ p.q q) : j ∈ (sendHome e i p).q q := by
  refine mem_set hj ?_
  show j ∈ ((p.unlink i).uncount i).q q
  rw [q_uncount]
  exact List.mem_filter.mpr ⟨h, by simpa using hj⟩

theorem unheld_of_scanned (hq : q ∈ scannedQueues) : q.Unheld := by
  revert q
  decide

theorem checkTaskTimeout_cases (cfg : Cfg) (e : Env) (g : Sig) (i : NodeId) :
    (cfg.taskTimeout < e.now - (g.pool.node i).base.starttime ∨
        (g.pool.node i).base.overstatus = OVER_TIMEOUT) ∧
      checkTaskTimeout cfg e g i = { g with
        pool := sendHome e i (g.pool.over i OVER_TIMEOUT)
        expired := g.expired ++
          [⟨e.now, (g.pool.node i).born, (g.pool.node i).op, (g.pool.node i).sub.peerip⟩] } ∨
      checkTaskTimeout cfg e g i =
        { g with pool := g.pool.over i (g.pool.node i).base.overstatus } := by
  unfold checkTaskTimeout
  simp only
  by_cases hlate : cfg.taskTimeout < e.now - (g.pool.node i).base.starttime
  · simp only [if_pos hlate, if_true]
    exact .inl ⟨.inl hlate, trivial⟩
  simp only [if_neg hlate]
  by_cases hto : (g.pool.node i).base.overstatus = OVER_TIMEOUT
  · simp only [hto, if_true]
    exact .inl ⟨.inr trivial, trivial⟩
  · simp only [if_neg hto]
    exact .inr trivial

theorem checkTaskTimeout_watched (hg : SigInv W cfg sl g) (href : W.ref = none)
    (hq : q ∈ scannedQueues) (hi : i ∈ g.pool.q q) (hlock : W.strict → e.setLock .home = true) :
    SigInv W cfg sl (checkTaskTimeout cfg e g i) := by
  have hfree : Free W q := free_of_ref href (unheld_of_scanned hq)
  obtain ⟨hin, hpol⟩ := Stored.ofQueue hg.tasks.stored (policy_unheld hfree.1) hi
  rcases checkTaskTimeout_cases cfg e g i with ⟨hwhy, heq⟩ | heq
  · rw [heq]
    refine ⟨sendHome_held hfree (hin.modify _) (framed_of_ref href _) hlock, fun ht x hx => ?_,
      marked_of_ref href _⟩
    rcases List.mem_append.mp hx with hx | hx
    · exact hg.expired ht x hx
    obtain ⟨hborn, hto⟩ := hpol.2.time ht hq
    have hlate := hwhy.resolve_right hto
    rw [List.mem_singleton.mp hx]
    exact Int.lt_of_lt_of_le hlate (Int.sub_le_sub_left hborn e.now)
  · rw [heq]
    refine hg.work ⟨InHand.stored (hin.modify _) ?_, framed_of_ref href _⟩
    show Policy _ _ _ ((g.pool.over i _).node i).item
    rw [item_over]
    exact hpol

theorem mem_checkTaskTimeout {j : NodeId} (hj : j ≠ i) (h : j ∈ g.pool.q q) :
    j ∈ (checkTaskTimeout cfg e g i).pool.q q := by
  rcases checkTaskTimeout_cases cfg e g i with ⟨-, heq⟩ | heq
  · rw [heq]
    exact mem_sendHome hj h
  · rw [heq]
    exact h

section Requests

variable (hg : SigInv W cfg sl g)

include hg

theorem scanTimeout_watched (href : W.ref = none)
    (hq : q ∈ scannedQueues) (hlock : W.strict → e.setLock .home = true) :
    SigInv W cfg sl (scanTimeout cfg e g q) := by
  unfold scanTimeout
  split
  · refine foldl_scan (fun g => g.pool.q q) ?_ ?_ hg (hg.tasks.stored.nodup q)
    · exact fun g i hg hi => checkTaskTimeout_watched hg href hq hi hlock
    · exact fun g i j hj h => mem_checkTaskTimeout hj h
  · exact hg

theorem doTimeoutTask_watched (href : W.ref = none) (he : EnvOk W cfg e) :
    SigInv W cfg sl (doTimeoutTask cfg e g) := by
  have hfold (qs : List TaskQ) (hqs : ∀ q ∈ qs, q ∈ scannedQueues) (g : Sig) (hg :
      SigInv W cfg sl g) :
      SigInv W cfg sl (qs.foldl (scanTimeout cfg e) g) := by
    induction qs generalizing g with
    | nil => exact hg
    | cons q qs ih =>
      exact ih (fun r hr => hqs r (List.mem_cons_of_mem _ hr)) _
        (scanTimeout_watched hg href (hqs q List.mem_cons_self) (he.lock (by decide)))
  unfold doTimeoutTask
  split
  · exact hfold scannedQueues (fun _ hq => hq) g hg
  · exact hg

theorem cleanTask_watched (he : EnvOk W cfg e) :
    SigInv W cfg sl (cleanTask e g) := by
  unfold cleanTask
  split
  · refine hg.work ?_
    refine foldl_scan (I := fun p => Held W cfg.datadir p sl) (fun p => p.q .clean)
      ?_ ?_ hg.tasks (hg.tasks.stored.nodup .clean)
    · intro p i hp hi
      obtain ⟨hin, -⟩ := hp.stored.ofQueue (policy_unheld (by decide)) hi
      exact sendHome_held (free (by decide)) hin hp.framed (he.lock (by decide))
    · exact fun p i j hj h => mem_sendHome hj h
  · exact hg

/-! ## 4. Tasks of the operator and of directories -/

theorem doPossSyncFile_watched {file : Path} {ip : UInt32} (he : EnvOk W cfg e)
    (hname : W.path → Confined cfg.datadir (file.take 255)) :
    SigInv W cfg sl (doPossSyncFile cfg e file ip g) := by
  unfold doPossSyncFile
  split
  · exact hg
  rename_i hget
  obtain ⟨hin, -⟩ := hg.tasks.take (free (by decide)) hget
  refine hg.work ((hin.create _ _ _ _).place (free (by decide)) (he.lock (by decide)) ?_)
  rw [item_create]
  refine ⟨fun hw => ⟨.inl rfl, .inl (hname hw)⟩, fun _ _ => ⟨Int.le_refl _, ?_⟩⟩
  show (0 : UInt8) ≠ OVER_TIMEOUT
  decide

theorem create_quiet {p' : Pool} {sub : TaskSub} (hget : e.get .home g.pool = some (i, p'))
    (he : EnvOk W cfg e)
    (hq : Free W q) (hpath : ∀ b, PathQueued cfg.datadir q b) (hscan : q ∉ scannedQueues) :
    Held W cfg.datadir (e.set i q (p'.create i e.now base sub none)) sl := by
  obtain ⟨hin, -⟩ := hg.tasks.take (free (by decide)) hget
  exact (hin.create _ _ _ _).place hq (he.lock hq.1.1) (queuedOk_of_quiet hpath hscan)

theorem doPossSyncDir_watched {file : Path} {starttime : Int}
    (he : EnvOk W cfg e) : SigInv W cfg sl (doPossSyncDir e file starttime g) := by
  unfold doPossSyncDir
  split
  · exact hg
  · rename_i hget
    exact hg.work (create_quiet hg hget he (free (by decide)) (fun _ => trivial) (by decide))

theorem doSyncDirReq_watched {peer : SigPeer} {req : List UInt8}
    (he : EnvOk W cfg e) : SigInv W cfg sl (doSyncDirReq e peer req g) := by
  unfold doSyncDirReq
  split
  · exact ⟨hg.tasks, hg.expired, fun r hr => (hg.marks r hr).say _ rfl⟩
  · rename_i hget
    exact hg.work (create_quiet hg hget he (free (by decide)) (fun _ => trivial) (by decide))

end Requests

theorem syncDirFiles_watched (ip : UInt32) {fs : List DirFile} (k : Nat)
    (hg : SigInv W cfg sl g) (he : ∀ k, EnvOk W cfg (envs k)) (hnone : W.time → fs = []) :
    SigInv W cfg sl (syncDirFiles envs ip fs k g) := by
  induction fs generalizing k g with
  | nil => exact hg
  | cons f fs ih =>
    have htime : ¬ W.time := fun ht => by cases hnone ht
    refine ih (k + 1) ?_ fun ht => absurd ht htime
    unfold syncDirFile
    split
    · exact hg
    rename_i hget
    obtain ⟨hin, -⟩ := hg.tasks.take (free (by decide)) hget
    exact hg.work ((hin.create _ _ _ _).place (free (by decide)) ((he k).lock (by decide))
      (queuedOk_timed (fun _ => trivial) fun ht => absurd ht htime))

theorem syncDirTask_watched {files : Option (List DirFile)} (hg : SigInv W cfg sl g)
    (he : EnvOk W cfg e) (hes : ∀ k, EnvOk W cfg (envs k)) (hnone : W.time → files.getD [] = [])
    (hsl : sl ⟨0, .hand⟩ = none) : SigInv W cfg sl (syncDirTask e envs files g) := by
  unfold syncDirTask
  split
  · exact hg
  rename_i i pool hget
  obtain ⟨hin, -⟩ := hg.tasks.take (free (by decide)) hget
  have haside : SigInv W cfg (Function.update sl ⟨0, .hand⟩ (some i)) { g with pool := pool } :=
    ⟨hin.aside 0 hsl, hg.expired, fun r hr => (hg.marks r hr).pool pool⟩
  have hfiles := syncDirFiles_watched (pool.node i).base.dstip 0 haside hes hnone
  exact ⟨hfiles.tasks.putBack hsl (free (by decide)) (he.lock (by decide)) _
    (queuedOk_of_quiet (fun _ => trivial) (by decide)), hfiles.expired,
    fun r hr => (hfiles.marks r hr).pool _⟩

end Pfs
