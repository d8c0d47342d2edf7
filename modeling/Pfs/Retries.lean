/-
  How often is a fetch tried? `check_task` of network/D/pfs_data_base.c compares `retry` with
  the limit, `svc_finiconn` of network/D/pfs_data.c and `do_fin_task` of
  network/S/pfs_sig_sub.c count it up and put the task back into TASK_Q_WAIT.

  Counter and limit have 8 bits. The record that holds the counter travels with the request; the
  answer may replace the record of the task (`do_recv_task`), with the counter that was sent.

  Main results: `retries_bounded`, `retries_unbounded`, `dataCheckOne_many`, `finiRecv_retry`,
  `recvDone_overstatus`, `finOne_retry`.
-/
import Pfs.Fetch

namespace Pfs

open Lib

/-! ## 1. The counter in the record -/

section Record

variable {datadir : Path} {base base' : TaskBase}

theorem checkRecord_retry {e : FsEnv} {here : Bool}
    (h : checkRecord datadir e base = .ok (here, base')) :
    base'.retry = base.retry := by
  unfold checkRecord checkLocalfileMd5 at h
  split at h
  · split at h
    · cases h
    rename_i ret base₁ ops hc
    cases h
    split at hc
    · cases hc
    · cases hc
      rfl
    · cases hc
      rfl
  · cases h
    rfl

theorem sendStat_retry (e : Env) (base : TaskBase) : (sendStat e base).2.1.retry = base.retry := by
  unfold sendStat getLocalfileStat
  split
  · split
    · rfl
    · simp only
      split <;> rfl
  · rfl

theorem serveRecord_retry (e : Env) (home : Bool) (req : TaskBase) :
    (serveRecord e home req).2.1.retry = req.retry := by
  have hretry := sendStat_retry e req
  unfold serveRecord
  simp only
  split_ifs <;> exact hretry

theorem recvRecord_retry {e : FsEnv} {gIndex : Nat} {rsp : TaskBase} {ret : LocalRet}
    (hrsp : rsp.retry = base.retry) (h : recvRecord datadir e gIndex base rsp = .ok (ret, base')) :
    base'.retry = base.retry := by
  have hpick : (if base.filemd5 = rsp.filemd5 then base else rsp).retry = base.retry := by
    split
    · rfl
    · exact hrsp
  unfold recvRecord openTmpLocalfile4Write at h
  simp only at h
  split at h
  · cases h
  rename_i hc
  cases h
  split at hc
  · cases hc
  · cases hc
    exact hpick
  split at hc
  · cases hc
  · cases hc
    exact hpick

end Record

/-! ## 2. One step -/

inductive Effect (retry : UInt8) (x x' : Attempts) : Prop where
  /-- It stays; a task that goes out has tries left, and its counter goes with it. -/
  | keep (hretry : x'.base.retry = x.base.retry) (hback : x'.putBacks = x.putBacks)
      (hflight : x'.place.inFlight = true → x.place.inFlight = true ∨ x.base.retry ≤ retry)
      (hecho : ∀ b ∈ x'.place.record, b.retry = x'.base.retry)
  /-- The task is put back. -/
  | back (hretry : x'.base.retry = x.base.retry + 1) (hback : x'.putBacks = x.putBacks + 1)
      (hplace : x'.place = .wait) (hleft : x.place.inFlight = true ∨ x.base.retry < retry)

theorem echo_of_none {place : TaskPlace} {retry : UInt8} (h : place.record = none) :
    ∀ b ∈ place.record, b.retry = retry := by
  intro b hb
  cases h.symm.trans hb

section Step

variable {retry : UInt8} {datadir : Path} {x x' : Attempts}

theorem effect_finish {y : Attempts} (o : UInt8) (h : y.base.retry = x.base.retry)
    (hback : y.putBacks = x.putBacks) : Effect retry x (y.finish o) :=
  .keep h hback (fun hf => Bool.noConfusion hf) (echo_of_none rfl)

theorem effect_check {e : FsEnv} {ending : CheckEnd}
    (hs : retryNext retry datadir x (.check e ending) = some x') : Effect retry x x' := by
  unfold retryNext at hs
  simp only at hs
  split at hs
  · cases hs
  rename_i hplace
  rw [Decidable.not_not] at hplace
  split at hs
  · cases hs
    exact effect_finish _ rfl rfl
  rename_i hleft
  split at hs
  · cases hs
  · rename_i base hrec
    cases hs
    exact effect_finish _ (checkRecord_retry hrec) rfl
  rename_i base hrec
  have hretry := checkRecord_retry hrec
  cases hs
  cases ending with
  | hung =>
    refine .keep hretry rfl (fun hf => .inl hf) (echo_of_none ?_)
    rw [Attempts.placeTask, hplace]
    rfl
  | wrongType | diskErr | pfsTest => exact effect_finish _ hretry rfl
  | sent =>
    refine .keep hretry rfl (fun _ => .inr (UInt8.not_lt.mp hleft)) fun b hb => ?_
    cases hb
    rfl

theorem effect_recv {e : FsEnv} {gIndex : Nat}
    (hecho : ∀ b ∈ x.place.record, b.retry = x.base.retry)
    (hs : retryNext retry datadir x (.recv e gIndex) = some x') : Effect retry x x' := by
  unfold retryNext at hs
  simp only at hs
  split at hs
  · rename_i status rsp hplace
    split at hs
    · cases hs
      exact effect_finish _ rfl rfl
    split at hs
    · cases hs
    rename_i ret base hrec
    have hrsp : rsp.retry = x.base.retry := hecho rsp (by rw [hplace]; rfl)
    have hretry := recvRecord_retry hrsp hrec
    have hflight : x.place.inFlight = true := by rw [hplace]; rfl
    cases hs
    split
    · exact .keep hretry rfl (fun _ => .inl hflight) (echo_of_none rfl)
    · exact .keep hretry rfl (fun _ => .inl hflight) (echo_of_none rfl)
  · cases hs

theorem effect_serve {e : Env} {home : Bool} (hecho : ∀ b ∈ x.place.record, b.retry = x.base.retry)
    (hs : retryNext retry datadir x (.serve e home) = some x') : Effect retry x x' := by
  unfold retryNext at hs
  simp only at hs
  split at hs
  · rename_i req hplace
    cases hs
    have hflight : x.place.inFlight = true := by rw [hplace]; rfl
    refine .keep rfl rfl (fun _ => .inl hflight) fun b hb => ?_
    cases hb
    exact (serveRecord_retry e home req).trans (hecho req (by rw [hplace]; rfl))
  · cases hs

theorem effect_fin (hs : retryNext retry datadir x .fin = some x') : Effect retry x x' := by
  unfold retryNext at hs
  simp only at hs
  split at hs
  · cases hs
  split at hs
  · rename_i hleft
    cases hs
    unfold triesLeft at hleft
    rw [Bool.and_eq_true, decide_eq_true_eq] at hleft
    exact .back rfl rfl rfl (.inr hleft.2)
  · cases hs
    exact .keep rfl rfl (fun hf => Bool.noConfusion hf) (echo_of_none rfl)

theorem retry_effect {a : AttemptAct} (hecho : ∀ b ∈ x.place.record, b.retry = x.base.retry)
    (hs : retryNext retry datadir x a = some x') : Effect retry x x' := by
  cases a with
  | check e ending => exact effect_check hs
  | serve e home => exact effect_serve hecho hs
  | recv e gIndex => exact effect_recv hecho hs
  | done e fd md5 =>
    unfold retryNext at hs
    simp only at hs
    split at hs
    · cases hs
    split at hs
    · cases hs
      exact effect_finish _ rfl rfl
    · cases hs
      exact effect_finish _ rfl rfl
  | lost =>
    unfold retryNext at hs
    simp only at hs
    split at hs
    · rename_i hflight
      cases hs
      exact .back rfl rfl rfl (.inl hflight)
    · cases hs
  | fin => exact effect_fin hs

end Step

/-! ## 3. All attempts -/

/-- The counter that the task came with is `r`. -/
structure RetryInv (retry : UInt8) (r : Nat) (x : Attempts) : Prop where
  count : x.base.retry.toNat = r + x.putBacks
  bound : 0 < x.putBacks → x.base.retry.toNat ≤ retry.toNat + 1
  flight : x.place.inFlight = true → x.base.retry ≤ retry
  echo : ∀ b ∈ x.place.record, b.retry = x.base.retry

section Run

variable {retry : UInt8} {datadir : Path} {r : Nat} {x x' : Attempts} {base : TaskBase}

theorem retryInv_init (retry : UInt8) (base : TaskBase) :
    RetryInv retry base.retry.toNat (Attempts.init base) where
  count := rfl
  bound := fun h => absurd h (Nat.lt_irrefl 0)
  flight := fun h => Bool.noConfusion h
  echo := echo_of_none rfl

theorem RetryInv.left (h : RetryInv retry r x)
    (hleft : x.place.inFlight = true ∨ x.base.retry < retry) :
    x.base.retry.toNat ≤ retry.toNat := by
  rcases hleft with hflight | hlt
  · exact UInt8.le_iff_toNat_le.mp (h.flight hflight)
  · exact Nat.le_of_lt (UInt8.lt_iff_toNat_lt.mp hlt)

theorem toNat_succ {c : UInt8} (h : c.toNat < 255) : (c + 1).toNat = c.toNat + 1 := by
  have hone : (1 : UInt8).toNat = 1 := rfl
  rw [UInt8.toNat_add, hone]
  exact Nat.mod_eq_of_lt (by omega)

theorem RetryInv.next (hretry : retry.toNat < 255) {a : AttemptAct} (h : RetryInv retry r x)
    (hs : retryNext retry datadir x a = some x') : RetryInv retry r x' := by
  cases retry_effect h.echo hs with
  | keep hsame hback hflight hecho =>
    refine ⟨?_, ?_, ?_, hecho⟩
    · rw [hsame, hback]
      exact h.count
    · rw [hsame, hback]
      exact h.bound
    · intro hf
      rw [hsame]
      rcases hflight hf with hf | hle
      · exact h.flight hf
      · exact hle
  | back hsucc hback hplace hleft =>
    have hle := h.left hleft
    have hnat : x'.base.retry.toNat = x.base.retry.toNat + 1 := by
      rw [hsucc]
      exact toNat_succ (by omega)
    have hcount := h.count
    refine ⟨by omega, fun _ => by omega, fun hf => ?_, echo_of_none ?_⟩
    · rw [hplace] at hf
      cases hf
    · rw [hplace]
      rfl

theorem retryInv_of_reach (hretry : retry.toNat < 255)
    (h : Reach (retryNext retry datadir) (Attempts.init base) x) :
    RetryInv retry base.retry.toNat x :=
  h.inv (retryInv_init retry base) fun _ _ _ hi _ hs => hi.next hretry hs

theorem given_up (hplace : x.place = .wait) (hmany : retry < x.base.retry) (e : FsEnv)
    (ending : CheckEnd) :
    ∃ x₁ x₂, retryNext retry datadir x (.check e ending) = some x₁ ∧ x₁.place = .fin ∧
      retryNext retry datadir x₁ .fin = some x₂ ∧ x₂.place = .clean := by
  refine ⟨x.finish OVER_TOO_MANY_TRY, { x.finish OVER_TOO_MANY_TRY with place := .clean }, ?_, rfl,
    ?_, rfl⟩
  · unfold retryNext
    simp [hplace, hmany]
  · have hno : triesLeft retry (x.finish OVER_TOO_MANY_TRY).base = false := rfl
    unfold retryNext
    simp only [hno]
    rfl

/-- **Retries are bounded**, for every limit below 255 and every mixture of failures: the task is
    put back at most `retry + 1` times and is then given up; a task in TASK_Q_FIN is put back or
    goes to TASK_Q_CLEAN; the counter never decreases. -/
theorem retries_bounded (hretry : retry.toNat < 255)
    (h : Reach (retryNext retry datadir) (Attempts.init base) x) :
    x.putBacks ≤ retry.toNat + 1 ∧
      (x.place = .wait → x.putBacks = retry.toNat + 1 → ∀ e ending, ∃ x₁ x₂,
        retryNext retry datadir x (.check e ending) = some x₁ ∧ x₁.place = .fin ∧
          retryNext retry datadir x₁ .fin = some x₂ ∧ x₂.place = .clean) ∧
      (x.place = .fin → ∃ x', retryNext retry datadir x .fin = some x' ∧
        (x'.place = .clean ∨ x'.place = .wait ∧ x'.putBacks = x.putBacks + 1)) ∧
      ∀ a x', retryNext retry datadir x a = some x' → x.base.retry ≤ x'.base.retry := by
  have hinv := retryInv_of_reach hretry h
  have hcount := hinv.count
  have hbound := hinv.bound
  refine ⟨by omega, ?_, ?_, ?_⟩
  · intro hplace hall e ending
    exact given_up hplace (UInt8.lt_iff_toNat_lt.mpr (by omega)) e ending
  · intro hplace
    unfold retryNext
    simp only [hplace, ne_eq, not_true_eq_false, if_false]
    split
    · exact ⟨_, rfl, .inr ⟨rfl, rfl⟩⟩
    · exact ⟨_, rfl, .inl rfl⟩
  · intro a x' hs
    cases retry_effect hinv.echo hs with
    | keep hsame => exact UInt8.le_of_eq hsame.symm
    | back hsucc _ _ hleft =>
      have hle := hinv.left hleft
      rw [hsucc, UInt8.le_iff_toNat_le, toNat_succ (by omega)]
      omega

end Run

/-- The connection is lost, the digest is wrong, the connection is lost again. -/
def threeFailures : List AttemptAct :=
  [.check smallFs .sent, .lost, .check smallFs .sent,
    .serve { smallEnv 5 with fs := { smallFs with filemd5 := some (List.replicate 16 0) } } true,
    .recv smallFs 3, .done smallFs 7 (List.replicate 17 1), .fin, .check smallFs .hung,
      .check smallFs .sent, .lost]

theorem retries_bounded_three : ∃ x,
    exec (retryNext 2 (ascii "/d")) (Attempts.init (fetchBase (ascii "/d/1/2/f"))) threeFailures =
      some x ∧
    x.putBacks = 3 ∧
    ∃ x₁ x₂, retryNext 2 (ascii "/d") x (.check smallFs .sent) = some x₁ ∧ x₁.place = .fin ∧
      retryNext 2 (ascii "/d") x₁ .fin = some x₂ ∧ x₂.place = .clean := by
  have hex := exec_eq_getD (Attempts.init TaskBase.zero)
    (show (exec (retryNext 2 (ascii "/d")) (Attempts.init (fetchBase (ascii "/d/1/2/f")))
      threeFailures).isSome =
      true by decide +kernel)
  have hlimit : (2 : UInt8).toNat < 255 := by decide
  have hbounded := retries_bounded hlimit (reach_of_exec threeFailures .start hex)
  refine ⟨_, hex, by decide +kernel,
    hbounded.2.1 (by decide +kernel) (by decide +kernel) smallFs .sent⟩

/-! ## 4. The limit 255 -/

def triedOften (n : Nat) : Attempts :=
  ⟨{ TaskBase.zero with retry := UInt8.ofNat n }, .wait, n, [], []⟩

def triedAgain (n : Nat) : Attempts :=
  { triedOften n with place := .asked { TaskBase.zero with retry := UInt8.ofNat n } }

section Limit

variable {datadir : Path}

theorem check_triedOften (n : Nat) :
    retryNext 255 datadir (triedOften n) (.check smallFs .sent) = some (triedAgain n) := by
  have hno : ¬ (255 : UInt8) < UInt8.ofNat n := by
    rw [UInt8.lt_iff_toNat_lt]
    have := (UInt8.ofNat n).toNat_lt
    have hmax : (255 : UInt8).toNat = 255 := rfl
    omega
  unfold retryNext
  simp only [triedOften, hno, ne_eq, not_true_eq_false, if_false]
  rfl

theorem lost_triedAgain (n : Nat) :
    retryNext 255 datadir (triedAgain n) .lost = some (triedOften (n + 1)) := by
  rw [triedOften, UInt8.ofNat_add]
  rfl

/-- **The task can be put back any number of times.** -/
theorem reach_triedOften (n : Nat) :
    Reach (retryNext 255 datadir) (Attempts.init TaskBase.zero) (triedOften n) := by
  induction n with
  | zero => exact .start
  | succ n ih => exact (ih.next trivial (check_triedOften n)).next trivial (lost_triedAgain n)

/-- With the limit 255 there is no bound, and the counter falls from 255 to 0. -/
theorem retries_unbounded :
    (∀ n, ∃ x, Reach (retryNext 255 (ascii "/d")) (Attempts.init TaskBase.zero) x ∧
      x.putBacks = n) ∧
      ∃ x x', Reach (retryNext 255 (ascii "/d")) (Attempts.init TaskBase.zero) x ∧
        retryNext 255 (ascii "/d") x .lost = some x' ∧ x'.base.retry < x.base.retry := by
  refine ⟨fun n => ⟨_, reach_triedOften n, rfl⟩, triedAgain 255, triedOften 256, ?_,
    lost_triedAgain 255, by decide⟩
  exact (reach_triedOften 255).next trivial (check_triedOften 255)

end Limit

/-! ## 5. The handlers of the storage -/

section Handlers

variable (cfg : Cfg) {e : Env} {fd : Fd} {s : Storage} {i : NodeId} {p : Peer}

theorem dataCheckOne_many (h : cfg.retry < (s.pool.node i).base.retry) :
    dataCheckOne cfg e i s = .ok (s.finish e i OVER_TOO_MANY_TRY) :=
  if_pos h

theorem finiRecv_retry (hsvc : p.svc = .data) (hi : p.recvtask = some i) :
    ((finiRecv e p s).pool.node i).base =
      { (s.pool.node i).base with retry := (s.pool.node i).base.retry + 1 } := by
  rw [finiRecv, hi]
  simp only [hsvc]
  rw [(Env.node_set _ _ _ _).1]
  simp [Pool.modify, Storage.log]

theorem recvDone_overstatus (ctx : Md5Context) :
    ((recvDone cfg e fd i ctx p s).2.pool.node i).base =
      { (s.pool.node i).base with
        overstatus :=
          if (closeTmpCheckMv e.fs (s.pool.node i).base p.localInFd
            ((md5.final ctx).1 ++ [e.behind])).1 = .ok then OVER_OK else OVER_E_MD5 } := by
  unfold recvDone
  simp only
  by_cases hok : (closeTmpCheckMv e.fs (s.pool.node i).base p.localInFd
      ((md5.final ctx).1 ++ [e.behind])).1 = .ok
  · simp only [hok, ne_eq, not_true_eq_false, if_false, if_true, Storage.setPeer]
    rw [(Env.node_set _ _ _ _).1]
    simp [Pool.over, Pool.modify, Storage.log]
  · simp only [hok, ne_eq, not_false_eq_true, if_true, if_false, Storage.setPeer]
    rw [(Env.node_set _ _ _ _).1]
    simp [Pool.over, Pool.modify, Storage.log]

theorem syncMembers_retry (envs : Nat → Env) (op : Nat) (ms : List Member) (k : Nat)
    (base : TaskBase) (g : Sig) : (syncMembers cfg envs op ms k base g).1.retry = base.retry := by
  induction ms generalizing k base g with
  | nil => rfl
  | cons m ms ih =>
    unfold syncMembers
    split
    · exact ih _ _ _
    simp only
    split
    · rw [ih]
      unfold createDelayTask
      split <;> rfl
    · exact ih _ _ _

theorem finOne_retry (envs : Nat → Env) (g : Sig) :
    ((finOne cfg envs i g).pool.node i).base.retry =
      if triesLeft cfg.retry (g.pool.node i).base then (g.pool.node i).base.retry + 1
      else (g.pool.node i).base.retry := by
  have hagain : (g.pool.node i).again cfg = triesLeft cfg.retry (g.pool.node i).base := rfl
  unfold finOne
  simp only [hagain]
  split
  · rw [(Env.node_set _ _ _ _).1]
    simp [Pool.store, Pool.modify]
  split
  · rw [(Env.node_set _ _ _ _).1]
    simp only [Pool.store, Pool.modify, Function.update_self]
    exact syncMembers_retry cfg _ _ _ _ _ _
  · rw [(Env.node_set _ _ _ _).1]

end Handlers

end Pfs
