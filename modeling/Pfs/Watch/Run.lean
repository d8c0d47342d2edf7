/-
  Every step keeps the invariant, and so does every run.

  Main result: `inv_of_run`.
-/
import Pfs.Watch.Signalling

namespace Pfs

open Lib Function

variable {W : Watch} {cfg : Cfg} {e : Env} {s t : Storage}

/-! ## 1. NEWTASK_REQ -/

theorem newtaskNode_watched {h : SigHead} {i : NodeId} {base : TaskBase} {pool : Pool}
    (hi : Inv W cfg s)
    (hin : Loose W cfg.datadir pool (slots s.conn) i) (hitem : (pool.node i).item.base = base)
    (hborn : (pool.node i).item.born ≤ base.starttime) (he : EnvOk W cfg e)
    (hname : W.path → base.type ≠ TASK_DELFILE → WaitOk cfg.datadir base) :
    Yields (Inv W cfg) (newtaskNode cfg e h i base { s with pool := pool }) := by
  have hstamp : W.time → (pool.node i).item.born ≤ (pool.node i).item.base.starttime :=
    fun _ => by rw [hitem]; exact hborn
  unfold newtaskNode
  split
  · split
    · trivial
    rename_i ret b' ops rm hdel
    obtain ⟨hops, hrm⟩ := deleteLocalfile_confined hdel
    have hrest : Rest W cfg ({ s with pool := pool, timers := s.timers ++ rm.toList }.log ops) :=
      (hi.toRest.timer hrm).work rfl rfl rfl fun _ => ⟨ops, rfl, hops⟩
    exact finish_watched hrest hin he (by decide) (by decide) hstamp
  · rename_i htype
    split
    · trivial
    rename_i ret b' ops hc
    have hconf (hw : W.path) := checkLocalfileMd5_confined hc (hname hw htype).slash_mem
    have hrest : Rest W cfg ({ s with pool := pool }.log ops) :=
      hi.toRest.work rfl rfl rfl fun hw => ⟨ops, rfl, (hconf hw).1⟩
    simp only
    split
    · exact finish_watched hrest hin he (by decide) (by decide) hstamp
    refine ⟨hrest.work rfl rfl rfl (adds_none rfl), ?_⟩
    have hwait (q : TaskQ) (hq : q = .wait ∨ q = .syncDir) :
        QueuedOk W cfg.datadir q ((pool.over i OVER_UNKNOWN).node i).item := by
      rw [item_over]
      have htime : W.time → InTime ((pool.node i).item.over OVER_UNKNOWN) := fun ht =>
        ⟨hstamp ht, show OVER_UNKNOWN ≠ OVER_TIMEOUT by decide⟩
      have hpath : W.path → WaitOk cfg.datadir ((pool.node i).item.over OVER_UNKNOWN).base := by
        intro hw
        have hok := hname hw htype
        rw [← hitem] at hok
        exact hok
      rcases hq with rfl | rfl <;> exact ⟨hpath, fun ht _ => htime ht⟩
    show Held _ _ (e.set i (if h.status = STATUS_Q_SYNC_DIR then TaskQ.syncDir else .wait)
      (pool.over i OVER_UNKNOWN)) (slots s.conn)
    split
    · exact (hin.over _).place (free (by decide)) (he.lock (by decide)) (hwait _ (.inr rfl))
    · exact (hin.over _).place (free (by decide)) (he.lock (by decide)) (hwait _ (.inl rfl))

theorem recvNewtask_watched {fd : Fd} {h : SigHead} {base : TaskBase} (hi : Inv W cfg s)
    (hlen : W.ref = none ∨ h.bodylen = BASE_SIZE) (he : EnvOk W cfg e)
    (hname : W.path → base.type ≠ TASK_DELFILE → WaitOk cfg.datadir base) :
    Yields (Inv W cfg) (recvNewtask cfg fd h base e s) := by
  unfold recvNewtask
  split
  · exact hi
  split
  · rename_i hbad
    exact hi.ofSig ⟨hi.tasks, hi.expired, marked_of_ref (hlen.resolve_right hbad) _⟩
  unfold doNewtask
  split
  · exact hi
  simp only
  split
  · exact hi.ofSig ⟨hi.tasks, hi.expired, fun r hr => (hi.marks r hr).say _ rfl⟩
  rename_i hget
  obtain ⟨hin, -⟩ := hi.tasks.take (free (by decide)) hget
  refine newtaskNode_watched hi (hin.create _ _ _ _) ?_ ?_ he fun hw ht => ?_
  · rw [item_create]
  · exact Int.le_of_eq (by rw [item_create])
  · exact hname hw ht

/-! ## 2. One step -/

theorem accept_watched {svc : Svc} {fd : Fd} {ip : UInt32} (hi : Inv W cfg s) :
    Inv W cfg (s.accept svc fd ip) := by
  unfold Storage.accept
  split
  · rename_i hnone
    refine hi.peer rfl rfl rfl ?_ (fun _ hn => absurd rfl hn) (adds_none rfl)
    rw [slots_new hnone rfl rfl]
    exact hi.tasks
  · exact hi

theorem timer_watched {file : Path} (hi : Inv W cfg s) : Inv W cfg (if file ∈ s.timers then
    { s.log (realRmFile file) with timers := s.timers.erase file } else s) := by
  split
  · rename_i hmem
    refine ⟨{ hi.toRest with
      ops := fun hw => (hi.ops hw).append ?_
      timers := fun hw f hf => hi.timers hw f (List.mem_of_mem_erase hf) }, hi.tasks⟩
    unfold realRmFile
    split
    · exact .nil
    · exact opsConfined_unlink (hi.timers hw file hmem)
  · exact hi

/-- The actions that leave the delayed tasks and the reports of operations alone. -/
def Act.Apart : Act → Prop
  | .sigConnect _ _ => False
  | .sigClose _ => False
  | .sigFlush _ _ => False
  | .sigCheck _ => False
  | .timeout _ => False
  | .newtask _ h _ _ => h.bodylen = BASE_SIZE
  | _ => True

theorem step_watched {a : Act} (hi : Inv W cfg s) (hok : StepOk W cfg s a)
    (href : W.ref = none ∨ a.Apart) : Yields (Inv W cfg) (step cfg s a) := by
  cases a with
  | accept svc fd ip => exact accept_watched hi
  | recvMsg fd h base e e' =>
    simp only [step]
    split
    · exact hi
    rename_i p hp
    split
    · exact hi
    rename_i hst
    exact (doReq_watched hi hp hst (hok.env (.inl rfl)) hok).map fun r hr =>
      afterRecv_watched hr (hok.env (.inr rfl))
  | recvData fd b e e' =>
    simp only [step]
    split
    · exact hi
    rename_i p hp
    split
    · rename_i hst
      exact afterRecv_watched (recvFile_watched hi hp hst (hok.env (.inl rfl))) (hok.env (.inr rfl))
    · exact hi
  | send fd data file e =>
    simp only [step]
    split
    · exact hi
    · rename_i p hp
      exact doSend_watched hi hp (hok.env rfl)
  | close fd e => exact doClose_watched hi (hok.env rfl)
  | dataCheck envs => exact dataCheckTask_watched hi fun k n => hok.env ⟨k, n, rfl⟩
  | sigConnect fd ip =>
    refine hi.ofSig ?_
    show SigInv _ _ _ (s.toSig.connect fd ip)
    unfold Sig.connect
    split
    · exact hi.sig
    · exact ⟨hi.tasks, hi.expired, marked_of_ref (href.resolve_right id) _⟩
  | sigClose fd => exact hi.ofSig ⟨hi.tasks, hi.expired, marked_of_ref (href.resolve_right id) _⟩
  | sigFlush fd n =>
    exact hi.ofSig ⟨hi.tasks, hi.expired, marked_of_ref (href.resolve_right id) _⟩
  | newtask fd h base e =>
    exact recvNewtask_watched hi href (hok.env rfl) fun hw => (hok.path hw).2
  | syncDirReq fd req e =>
    simp only [step]
    split
    · exact hi
    · exact hi.ofSig (doSyncDirReq_watched hi.sig (hok.env rfl))
  | sigCheck v =>
    exact hi.ofSig (sigCheckTask_watched hi.sig (href.resolve_right id) (fun e he => hok.env he)
      (slots_hand _ _))
  | syncDir e envs files =>
    exact hi.ofSig (syncDirTask_watched hi.sig (hok.env (.inl rfl))
      (fun k => hok.env (.inr ⟨k, rfl⟩)) (fun ht => hok.time ht) (slots_hand _ _))
  | timeout e =>
    exact hi.ofSig (doTimeoutTask_watched hi.sig (href.resolve_right id) (hok.env rfl))
  | clean e => exact hi.ofSig (cleanTask_watched hi.sig (hok.env rfl))
  | possFile e file ip =>
    exact hi.ofSig (doPossSyncFile_watched hi.sig (hok.env rfl) fun hw => (hok.path hw).2)
  | possDir e file starttime => exact hi.ofSig (doPossSyncDir_watched hi.sig (hok.env rfl))
  | timer file => exact timer_watched hi

/-! ## 3. Runs -/

theorem stored_init (W : Watch) (datadir : Path) :
    Stored (Policy W datadir) initTaskInfo (slots fun _ => none) := by
  refine ⟨fun i => if i < 2048 then ⟨some .home, none⟩ else ⟨none, none⟩,
    ⟨fun q => ?_, fun i q => ?_, fun i w => ?_⟩, fun i => ⟨fun hi => ?_, fun hi => ?_⟩⟩
  · show (update (fun _ => []) TaskQ.home (homeInit 2048) q).Nodup
    by_cases hq : q = .home
    · subst hq
      rw [update_self]
      exact nodup_homeInit 2048
    · rw [update_of_ne hq]
      exact List.nodup_nil
  · show i ∈ update (fun _ => []) TaskQ.home (homeInit 2048) q ↔ _
    by_cases hq : q = .home
    · subst hq
      rw [update_self, mem_homeInit]
      split <;> simp_all
    · rw [update_of_ne hq]
      split <;> simp [Ne.symm hq]
  · show none = some i ↔ _
    split <;> simp
  · have hi : i < 2048 := hi
    simp only [if_pos hi]
    exact ⟨fun _ => by decide, queuedOk_home⟩
  · exact if_neg hi

theorem inv_init (cfg : Cfg) (href : W.ref = none) : Inv W cfg Storage.init where
  expired := fun _ _ hx => by cases hx
  marks := marked_of_ref href _
  busy := fun _ _ _ hp => by cases hp
  ops := fun _ => .nil
  timers := fun _ _ hf => by cases hf
  tasks := ⟨stored_init W cfg.datadir, framed_of_ref href _⟩

theorem inv_of_run (href : W.ref = none) (h : Run (next cfg) (StepOk W cfg) Storage.init s) :
    Inv W cfg s := by
  refine Run.inv (inv_init cfg href) (fun s t a hi hok hs => ?_) h
  exact (step_watched hi hok (.inl href)).of_ok (next_eq_some.mp hs)

end Pfs
