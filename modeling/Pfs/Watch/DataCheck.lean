/-
  `check_task` of the data service keeps the invariant.

  A round has one node in hand from the moment it leaves TASK_Q_WAIT until it is put somewhere, so
  the lemmas speak of the rest of the storage (`Rest`) and of the node in hand (`Loose`).
-/
import Pfs.Watch.Services

namespace Pfs

open Lib

variable {W : Watch} {cfg : Cfg} {e : Env} {fd : Fd} {s : Storage} {i : NodeId}

/-! ## 1. Moving a whole queue -/

theorem moveAll_stored {datadir : Path} {sl : Slot → Option NodeId} {envs : Nat → Env}
    {src dst : TaskQ}
    {n k : Nat} {p : Pool} (h : Held W datadir p sl) (hsrc : Free W src) (hdst : Free W dst)
    (hhome : src ≠ .home) (hlock : ∀ k, W.strict → (envs k).setLock dst = true)
    (hq : ∀ x, QueuedOk W datadir src x → QueuedOk W datadir dst x) :
    Held W datadir (moveAll envs src dst n k p) sl := by
  induction n generalizing k p with
  | zero => exact h
  | succ n ih =>
    unfold moveAll
    split
    · exact h
    rename_i hget
    obtain ⟨hin, hok⟩ := h.take hsrc hget
    exact ih (hin.place hdst (hlock k) (hq _ (hok.resolve_left hhome)))

/-! ## 2. A round -/

section Round

variable {datadir : Path}

theorem queuedOk_of_heldOk {q : TaskQ} {n : Item}
    (hq : q = .wait ∨ q = .waitTmp ∨ q = .syncDir ∨ q = .syncDirTmp)
    (h : HeldOk W datadir .recv n) :
    QueuedOk W datadir q n := by
  have hwait : W.path → WaitOk datadir n.base := fun hw => ⟨(h.path hw).2, .inl (h.path hw).1⟩
  rcases hq with rfl | rfl | rfl | rfl <;> exact ⟨hwait, fun ht _ => h.time ht⟩

theorem activeConnect_frame (s : Storage) (e : Env) (ip : UInt32) :
    (s.activeConnect e ip).pool = s.pool ∧
      slots (s.activeConnect e ip).conn = slots s.conn := by
  unfold Storage.activeConnect
  split
  · exact ⟨rfl, rfl⟩
  split
  · rename_i hnone
    exact ⟨rfl, slots_new hnone rfl rfl⟩
  · exact ⟨rfl, rfl⟩

theorem activeConnect_rest {ip : UInt32} (hr : Rest W cfg s) :
    Rest W cfg (s.activeConnect e ip) := by
  unfold Storage.activeConnect
  split
  · exact hr
  split
  · exact hr.peer rfl rfl rfl (fun _ hn => absurd rfl hn) (adds_none rfl)
  · exact hr

theorem checkLocalfileMd5_kept {pre : Path} {fs : FsEnv} {b : TaskBase} {ret : LocalRet}
    {b' : TaskBase} {ops : List FsOp}
    (hc : checkLocalfileMd5 pre datadir fs b = .ok (ret, b', ops)) :
    b'.tmpfile = b.tmpfile ∧ b'.starttime = b.starttime ∧ b'.overstatus = b.overstatus := by
  unfold checkLocalfileMd5 at hc
  split at hc
  · cases hc
  · cases hc
    exact ⟨rfl, rfl, rfl⟩
  · cases hc
    exact ⟨rfl, rfl, rfl⟩

theorem WaitOk.slash_mem {b : TaskBase} (h : WaitOk datadir b) : slash ∈ b.filename :=
  h.2.elim Confined.slash_mem And.left

variable (hr : Rest W cfg s) (hin : Loose W cfg.datadir s.pool (slots s.conn) i) (he :
  EnvOk W cfg e)

include hr hin he

theorem finish_watched {o : UInt8} (hmd5 : o ≠ OVER_E_MD5) (hto : o ≠ OVER_TIMEOUT)
    (ht : W.time → (s.pool.node i).item.born ≤ (s.pool.node i).item.base.starttime) :
    Inv W cfg (s.finish e i o) := by
  refine ⟨hr.work rfl rfl rfl (adds_none rfl), ?_⟩
  refine (hin.over o).place (free (by decide)) (he.lock (by decide)) ?_
  rw [item_over]
  exact queuedOk_over hmd5 hto ht

variable (hn : HeldOk W cfg.datadir .recv (s.pool.node i).item)

include hn

theorem hangUp_watched : Inv W cfg (s.hangUp e i) := by
  refine ⟨hr.work rfl rfl rfl (adds_none rfl), ?_⟩
  unfold Storage.hangUp
  simp only
  split
  · exact hin.place (free (by decide)) (he.lock (by decide)) (queuedOk_of_heldOk (by simp) hn)
  · exact hin.place (free (by decide)) (he.lock (by decide)) (queuedOk_of_heldOk (by simp) hn)

theorem dataTake_watched {p : Peer} (hp : s.conn fd = some p) (hidle : p.sockStat = .idle) :
    Inv W cfg (dataTake cfg e i fd s) := by
  unfold dataTake
  split
  · exact finish_watched hr hin he (by decide) (by decide) fun ht => (hn.time ht).1
  rw [hp]
  have hfree : W.strict → slots s.conn ⟨fd, .recv⟩ = none := by
    intro hw
    have hnone : p.recvtask = none := by
      by_contra hne
      have hbusy := hr.busy hw fd p hp hne
      simp [hidle] at hbusy
    simp [slots, hp, Peer.slot, hnone]
  refine ⟨hr.peer rfl rfl rfl (fun _ _ => .inl rfl) (adds_none rfl), ?_⟩
  show Held _ _ (e.set i .recv (s.pool.store i _ _)) (slots (Function.update s.conn fd _))
  rw [slots_recv hp (by simp [hidle]) ?_ ?_]
  · have hgive := ((hin.store (s.pool.node i).base { (s.pool.node i).sub with lastlen := 0 }).drop
      hfree).assign (e := e) (Function.update_self _ _ _) (fun _ hk => by cases hk) (by
        rw [item_store]
        exact ⟨hn.path, hn.time⟩)
    rw [Function.update_idem] at hgive
    exact hgive
  · simp [Peer.say]
  · rfl

theorem dataConnect_watched : Inv W cfg (dataConnect cfg e i s) := by
  unfold dataConnect
  simp only
  split
  · rename_i fd hfind
    obtain ⟨p, hp, -, -, hidle⟩ := conn_of_findIpStat hfind
    exact dataTake_watched hr hin he hn hp hidle
  split
  · exact hangUp_watched hr hin he hn
  generalize (s.pool.node i).sub.peerip = ip
  obtain ⟨hpool, hslots⟩ := activeConnect_frame s e ip
  have hr' : Rest W cfg (s.activeConnect e ip) := activeConnect_rest hr
  rw [← hslots, ← hpool] at hin
  rw [← hpool] at hn
  split
  · exact hangUp_watched hr' hin he hn
  rename_i fd hfind
  obtain ⟨p, hp, -, -, hidle⟩ := conn_of_findIpStat hfind
  exact dataTake_watched hr' hin he hn hp hidle

theorem dataPlace_watched : Inv W cfg (dataPlace cfg e i s) := by
  have hborn : W.time → (s.pool.node i).item.born ≤ (s.pool.node i).item.base.starttime :=
    fun ht => (hn.time ht).1
  have hdisk (hw : W.path) := checkDiskSpace_confined (hn.path hw).1 (he.path hw).1
  have hagain (hw : W.path) := checkDiskSpace_confined (hn.path hw).1 (he.path hw).2
  have hr' : Rest W cfg (s.log (checkDiskSpace e.fs (s.pool.node i).base).2) :=
    hr.work rfl rfl rfl fun hw => ⟨_, rfl, hdisk hw⟩
  unfold dataPlace
  simp only
  split
  · exact finish_watched hr hin he (by decide) (by decide) hborn
  split
  · have hr'' := hr'.work (t := (s.log _).log (checkDiskSpace e.fsAgain (s.pool.node i).base).2)
      rfl rfl rfl fun hw => ⟨_, rfl, hagain hw⟩
    split
    · exact hangUp_watched hr'' hin he hn
    · exact finish_watched hr'' hin he (by decide) (by decide) hborn
  · exact dataConnect_watched hr' hin he hn

omit hn in
theorem dataCheckOne_watched (hpath : W.path → WaitOk cfg.datadir (s.pool.node i).base)
    (htime : W.time → InTime (s.pool.node i).item) :
    Yields (Inv W cfg) (dataCheckOne cfg e i s) := by
  unfold dataCheckOne
  simp only
  split
  · exact finish_watched hr hin he (by decide) (by decide) fun ht => (htime ht).1
  split
  · split
    · trivial
    rename_i ret base ops hc
    have hconf (hw : W.path) := checkLocalfileMd5_confined hc (hpath hw).slash_mem
    obtain ⟨htmp, hkept⟩ := checkLocalfileMd5_kept hc
    have hr' : Rest W cfg ({ s with
        pool := s.pool.store i base (s.pool.node i).sub }.log ops) :=
      hr.work rfl rfl rfl fun hw => ⟨ops, rfl, (hconf hw).1⟩
    have hin' := hin.store base (s.pool.node i).sub
    have hn : HeldOk W cfg.datadir .recv
        ((s.pool.store i base (s.pool.node i).sub).node i).item := by
      rw [item_store]
      refine ⟨fun hw => ⟨(hconf hw).2, ?_⟩, fun ht => inTime_of_kept hkept (htime ht)⟩
      rw [htmp]
      exact (hpath hw).1
    split
    · exact finish_watched hr' hin' he (by decide) (by decide) fun ht => (hn.time ht).1
    · exact dataPlace_watched hr' hin' he hn
  · rename_i hsize
    -- nothing converts the name of a task without a size
    refine dataPlace_watched hr hin he ⟨fun hw => ⟨?_, (hpath hw).1⟩, htime⟩
    exact (hpath hw).2.resolve_right fun h => hsize h.2

end Round

/-! ## 3. The whole pass -/

theorem dataCheckLoop_watched {envs : Nat → Env} {n k : Nat} (hi : Inv W cfg s)
    (he : ∀ k, EnvOk W cfg (envs k)) : Yields (Inv W cfg) (dataCheckLoop cfg envs n k s) := by
  refine dataCheckLoop_outcome (fun k i pool s hi hget => ?_) hi
  have htaken : Loose W cfg.datadir pool (slots s.conn) i ∧
      (W.path → WaitOk cfg.datadir (pool.node i).base) ∧ (W.time → InTime (pool.node i).item) := by
    unfold Env.getEither at hget
    split at hget
    · rename_i hwait
      cases hget
      obtain ⟨hin, hok⟩ := hi.tasks.take (free (by decide)) hwait
      have hq := hok.resolve_left (by decide)
      exact ⟨hin, hq.path, fun ht => hq.time ht (by decide)⟩
    · obtain ⟨hin, hok⟩ := hi.tasks.take (free (by decide)) hget
      have hq := hok.resolve_left (by decide)
      exact ⟨hin, hq.path, fun ht => hq.time ht (by decide)⟩
  obtain ⟨hin, hpath, htime⟩ := htaken
  exact dataCheckOne_watched (hi.toRest.work rfl rfl rfl (adds_none rfl)) hin (he k) hpath htime

theorem dataCheckTask_watched {envs : Nat → Nat → Env} (hi : Inv W cfg s)
    (he : ∀ k n, EnvOk W cfg (envs k n)) : Yields (Inv W cfg) (dataCheckTask cfg envs s) := by
  unfold dataCheckTask
  refine dataCheckLoop_watched ⟨?_, ?_⟩ (he 2)
  · exact hi.toRest.work rfl rfl rfl (adds_none rfl)
  · refine moveAll_stored (moveAll_stored hi.tasks (free (by decide)) (free (by decide)) (by decide)
      (fun k => (he 0 k).lock (by decide)) ?_) (free (by decide)) (free (by decide)) (by decide)
      (fun k => (he 1 k).lock (by decide)) ?_
    · exact fun x hx => ⟨hx.path, fun ht _ => hx.time ht (by decide)⟩
    · exact fun x hx => ⟨hx.path, fun ht _ => hx.time ht (by decide)⟩

end Pfs
