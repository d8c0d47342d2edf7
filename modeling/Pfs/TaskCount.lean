/-
  The queue counters of the task pool (network/pfs_task.c; `get_data_from_task` and
  `clean_unused_task_mem` of network/pfs_agent.c).

  `taskcount[q]` is changed by hand wherever a node comes to a queue or leaves it. `init_task_info`
  links 2048 nodes in TASK_Q_HOME and leaves its counter at zero, and `pfs_set_task` of a node that
  is linked takes it out of its queue without counting: the data service does this at the end of
  every transfer, with a node in TASK_Q_RECV or TASK_Q_SEND.

  Main results: `excess_set`, `counter_not_behind`, `counts_of_run`.
-/
import Mathlib.Data.List.Perm.Subperm
import Pfs.Watch.Signalling

namespace Pfs

open Lib Function

/-! ## 1. What is done to the pool -/

/-- `clean_unused_task_mem`. A node of `init_task_info` has `last` -1 and stays. -/
def cleanUnusedTaskMem (e : Env) (p : Pool) (i : NodeId) : Pool :=
  if (p.node i).last < 0 then p
  else if e.now - (p.node i).last < 3600 then p
  else (p.unlink i).count .home (-1)

/-- `scan_some_status_task(TASK_Q_HOME, clean_unused_task_mem)`. -/
def scanHome (e : Env) (p : Pool) : Pool :=
  if e.getLock .home then (p.q .home).foldl (cleanUnusedTaskMem e) p else p

/-- The calls that move a node between queues. -/
inductive PoolAct where
  /-- `pfs_get_task` -/
  | get (e : Env) (q : TaskQ)
  /-- `pfs_set_task`, by whoever has a pointer to the node. The data service sets TASK_Q_RECV or
      TASK_Q_SEND when a transfer starts, and TASK_Q_FIN, TASK_Q_WAIT or TASK_Q_CLEAN when it
      ends. -/
  | set (e : Env) (i : NodeId) (q : TaskQ)
  /-- a handler writes to the task of a node -/
  | write (i : NodeId) (base : TaskBase) (sub : TaskSub)
  /-- `scan_some_status_task(q, check_task_timeout)` -/
  | timeout (e : Env) (q : TaskQ)
  /-- `scan_some_status_task(TASK_Q_CLEAN, get_data_from_task)` -/
  | clean (e : Env)
  /-- `scan_some_status_task(TASK_Q_HOME, clean_unused_task_mem)` -/
  | free (e : Env)

/-- One call; `pfs_set_task` needs a node that exists. -/
def poolNext (cfg : Cfg) (g : Sig) : PoolAct → Option Sig
  | .get e q => (e.get q g.pool).map fun r => { g with pool := r.2 }
  | .set e i q => if i < g.pool.fresh then some { g with pool := e.set i q g.pool } else none
  | .write i base sub => some { g with pool := g.pool.store i base sub }
  | .timeout e q => some (scanTimeout cfg e g q)
  | .clean e => some (cleanTask e g)
  | .free e => some { g with pool := scanHome e g.pool }

/-- The signalling service's state after `init_task_info`. -/
def Sig.init : Sig := Storage.init.toSig

/-! ## 2. Linked nodes -/

/-- A linked node has the status of its queue, is linked once and exists. -/
structure WellLinked (p : Pool) : Prop where
  status : ∀ q, ∀ i ∈ p.q q, (p.node i).status = some q
  nodup : ∀ q, (p.q q).Nodup
  fresh : ∀ q, ∀ i ∈ p.q q, i < p.fresh

/-- How much the counter is ahead of the queue. -/
def Pool.excess (p : Pool) (q : TaskQ) : Int := p.taskcount q - (p.q q).length

section Steps

variable {p p' : Pool} {e : Env} {i : NodeId} {q r : TaskQ}

theorem mem_unlink {j : NodeId} : j ∈ (p.unlink i).q r ↔ j ∈ p.q r ∧ j ≠ i := by
  simp [Pool.unlink]

theorem WellLinked.unlink (h : WellLinked p) (i : NodeId) : WellLinked (p.unlink i) where
  status := fun q j hj => h.status q j (mem_unlink.mp hj).1
  nodup := fun q => (h.nodup q).filter _
  fresh := fun q j hj => h.fresh q j (mem_unlink.mp hj).1

theorem WellLinked.count (h : WellLinked p) (q : TaskQ) (d : Int) : WellLinked (p.count q d) :=
  ⟨h.status, h.nodup, h.fresh⟩

theorem WellLinked.modify (h : WellLinked p) (i : NodeId) {f : Tasklist → Tasklist}
    (hf : ∀ n, (f n).status = n.status) : WellLinked (p.modify i f) where
  status := by
    intro q j hj
    have hq := h.status q j hj
    by_cases hji : j = i
    · subst hji
      rw [node_modify_self, hf]
      exact hq
    · rw [node_modify_ne p f hji]
      exact hq
  nodup := h.nodup
  fresh := h.fresh

theorem WellLinked.modify_loose (h : WellLinked p) (hi : ∀ q, i ∉ p.q q) (f : Tasklist → Tasklist) :
    WellLinked (p.modify i f) where
  status := by
    intro q j hj
    have hji : j ≠ i := fun hji => hi q (hji ▸ hj)
    rw [node_modify_ne p f hji]
    exact h.status q j hj
  nodup := h.nodup
  fresh := h.fresh

theorem length_unlink (h : WellLinked p) (i : NodeId) (r : TaskQ) :
    (((p.unlink i).q r).length : Int) = (p.q r).length - if i ∈ p.q r then 1 else 0 := by
  have herase : (p.unlink i).q r = (p.q r).erase i := ((h.nodup r).erase_eq_filter i).symm
  rw [herase, List.length_erase]
  split
  · rename_i hi
    have := List.length_pos_of_mem hi
    omega
  · omega

theorem excess_unlink (h : WellLinked p) (i : NodeId) (r : TaskQ) :
    (p.unlink i).excess r = p.excess r + if i ∈ p.q r then 1 else 0 := by
  unfold Pool.excess
  rw [length_unlink h i r]
  change p.taskcount r - _ = _
  omega

theorem excess_count (p : Pool) (q r : TaskQ) (d : Int) :
    (p.count q d).excess r = p.excess r + if r = q then d else 0 := by
  unfold Pool.excess Pool.count
  by_cases hr : r = q
  · subst hr
    simp only [update_self, if_true]
    omega
  · simp only [update_of_ne hr, if_neg hr]
    omega

theorem WellLinked.excess_take (h : WellLinked p) (hi : i ∈ p.q q) (r : TaskQ) :
    ((p.unlink i).count q (-1)).excess r = p.excess r := by
  have hmem : i ∈ p.q r ↔ r = q := by
    refine ⟨fun hr => ?_, fun hr => hr ▸ hi⟩
    exact Option.some.inj ((h.status r i hr).symm.trans (h.status q i hi))
  rw [excess_count, excess_unlink h]
  simp only [hmem]
  split <;> omega

theorem excess_append (p : Pool) (i : NodeId) (q r : TaskQ) :
    (p.append i q).excess r = p.excess r - if r = q then 1 else 0 := by
  unfold Pool.excess Pool.append
  by_cases hr : r = q
  · subst hr
    simp only [update_self, if_true, List.length_append, List.length_singleton]
    omega
  · simp only [update_of_ne hr, if_neg hr]
    omega

theorem WellLinked.append (h : WellLinked p) (hi : i < p.fresh) (hloose : ∀ q, i ∉ p.q q)
    {f : Tasklist → Tasklist} (hf : (f (p.node i)).status = some q) :
    WellLinked ((p.append i q).modify i f) := by
  have hmem : ∀ r j, j ∈ ((p.append i q).modify i f).q r → j ∈ p.q r ∨ r = q ∧ j = i := by
    intro r j hj
    change j ∈ update p.q q (p.q q ++ [i]) r at hj
    by_cases hr : r = q
    · subst hr
      rw [update_self] at hj
      obtain hj | hj := List.mem_append.mp hj
      · exact .inl hj
      · exact .inr ⟨rfl, List.mem_singleton.mp hj⟩
    · rw [update_of_ne hr] at hj
      exact .inl hj
  refine ⟨?_, ?_, ?_⟩
  · intro r j hj
    obtain hj | ⟨rfl, rfl⟩ := hmem r j hj
    · have hji : j ≠ i := fun hji => hloose r (hji ▸ hj)
      rw [node_modify_ne _ f hji]
      exact h.status r j hj
    · rw [node_modify_self]
      exact hf
  · intro r
    change (update p.q q (p.q q ++ [i]) r).Nodup
    by_cases hr : r = q
    · subst hr
      rw [update_self]
      refine List.nodup_append.mpr ⟨h.nodup r, by simp, ?_⟩
      intro j hj k hk hjk
      exact hloose r (List.mem_singleton.mp hk ▸ hjk ▸ hj)
    · rw [update_of_ne hr]
      exact h.nodup r
  · intro r j hj
    obtain hj | ⟨rfl, rfl⟩ := hmem r j hj
    · exact h.fresh r j hj
    · exact hi

/-! ## 3. `pfs_set_task` and `pfs_get_task` -/

theorem linked_set (h : WellLinked p) (hi : i < p.fresh) (e : Env) (q : TaskQ) :
    WellLinked (e.set i q p) := by
  unfold Env.set pfsSetTask
  split
  · exact ((h.unlink i).append hi (fun r hr => (mem_unlink.mp hr).2 rfl) rfl).count q 1
  · exact h

/-- **What `pfs_set_task` adds**: one for the queue from which it takes the node. -/
theorem excess_set (h : WellLinked p) (i : NodeId) (e : Env) (q r : TaskQ) :
    (e.set i q p).excess r = p.excess r + if e.setLock q = true ∧ i ∈ p.q r then 1 else 0 := by
  unfold Env.set pfsSetTask
  by_cases hlock : e.setLock q = true
  · simp only [hlock, if_true, true_and]
    rw [excess_count]
    change ((p.unlink i).append i q).excess r + _ = _
    rw [excess_append, excess_unlink h]
    omega
  · simp [hlock]

theorem excess_set_loose (h : WellLinked p) (hi : ∀ q, i ∉ p.q q) (e : Env) (q r : TaskQ) :
    (e.set i q p).excess r = p.excess r := by
  rw [excess_set h, if_neg (fun hr => hi r hr.2), Int.add_zero]

theorem linked_get (h : WellLinked p) (hg : e.get q p = some (i, p')) :
    WellLinked p' ∧ (∀ r, p'.excess r = p.excess r) ∧ ∀ r, i ∉ p'.q r := by
  obtain ⟨js, hl, rfl⟩ | ⟨-, rfl, rfl⟩ := Env.get_cases hg
  · have hi : i ∈ p.q q := by simp [hl]
    have hloose : ∀ r, i ∉ (p.unlink i).q r := fun r hr => (mem_unlink.mp hr).2 rfl
    refine ⟨?_, h.excess_take hi, hloose⟩
    exact ((h.count q (-1)).unlink i).modify_loose hloose ({ · with status := none })
  · have hloose : ∀ r, p.fresh ∉ p.q r := fun r hr => Nat.lt_irrefl _ (h.fresh r _ hr)
    have hmod := h.modify_loose hloose ({ · with last := e.now, status := none })
    exact ⟨⟨hmod.status, hmod.nodup, fun r j hj => Nat.lt_succ_of_lt (hmod.fresh r j hj)⟩,
      fun _ => rfl, hloose⟩

/-! ## 4. The scans -/

/-- **Counted as before**: the pool is well linked and no counter is more ahead, or less, than it
    is in the first pool. -/
def AsBefore (p p' : Pool) : Prop := WellLinked p' ∧ ∀ r, p'.excess r = p.excess r

theorem asBefore_sendHome (h : WellLinked p) (hi : i ∈ p.q q) (e : Env) :
    AsBefore p (sendHome e i p) := by
  have hstatus : (p.node i).status = some q := h.status q i hi
  have hun : (p.unlink i).uncount i = (p.unlink i).count q (-1) := by
    have hsame : ((p.unlink i).node i).status = some q := hstatus
    simp only [Pool.uncount, hsame]
  have hloose : ∀ r, i ∉ (((p.unlink i).count q (-1)).store i .zero .zero).q r :=
    fun r hr => (mem_unlink.mp hr).2 rfl
  have hl : WellLinked (((p.unlink i).count q (-1)).store i .zero .zero) :=
    ((h.unlink i).count q (-1)).modify i fun _ => rfl
  unfold sendHome
  rw [hun]
  refine ⟨linked_set hl (h.fresh q i hi) e .home, ?_⟩
  intro r
  rw [excess_set_loose hl hloose]
  exact h.excess_take hi r

theorem asBefore_cleanUnused (h : WellLinked p) (hi : i ∈ p.q .home) (e : Env) :
    AsBefore p (cleanUnusedTaskMem e p i) := by
  unfold cleanUnusedTaskMem
  split
  · exact ⟨h, fun _ => rfl⟩
  split
  · exact ⟨h, fun _ => rfl⟩
  · exact ⟨(h.unlink i).count .home (-1), h.excess_take hi⟩

theorem asBefore_scanHome (h : WellLinked p) (e : Env) : AsBefore p (scanHome e p) := by
  unfold scanHome
  split
  · refine foldl_scan (I := AsBefore p) (fun p : Pool => p.q .home) ?_ ?_ ⟨h, fun _ => rfl⟩
      (h.nodup .home)
    · intro p₁ i hp hi
      obtain ⟨hl, hex⟩ := asBefore_cleanUnused hp.1 hi e
      exact ⟨hl, fun r => (hex r).trans (hp.2 r)⟩
    · intro p₁ i j hj hmem
      unfold cleanUnusedTaskMem
      split
      · exact hmem
      split
      · exact hmem
      · exact mem_unlink.mpr ⟨hmem, hj⟩
  · exact ⟨h, fun _ => rfl⟩

variable {g : Sig}

theorem asBefore_cleanTask (h : WellLinked g.pool) (e : Env) :
    AsBefore g.pool (cleanTask e g).pool := by
  unfold cleanTask
  split
  · refine foldl_scan (I := AsBefore g.pool) (fun p : Pool => p.q .clean) ?_ ?_ ⟨h, fun _ => rfl⟩
      (h.nodup .clean)
    · intro p₁ i hp hi
      obtain ⟨hl, hex⟩ := asBefore_sendHome hp.1 hi e
      exact ⟨hl, fun r => (hex r).trans (hp.2 r)⟩
    · exact fun p₁ i j hj hmem => mem_sendHome hj hmem
  · exact ⟨h, fun _ => rfl⟩

theorem asBefore_scanTimeout (h : WellLinked g.pool) (cfg : Cfg) (e : Env) (q : TaskQ) :
    AsBefore g.pool (scanTimeout cfg e g q).pool := by
  unfold scanTimeout
  split
  · refine foldl_scan (I := fun t => AsBefore g.pool t.pool) (fun t : Sig => t.pool.q q) ?_ ?_
      ⟨h, fun _ => rfl⟩ (h.nodup q)
    · intro t i ht hi
      have hover : ∀ o, WellLinked (t.pool.over i o) := fun o => ht.1.modify i fun _ => rfl
      obtain ⟨-, heq⟩ | heq := checkTaskTimeout_cases cfg e t i
      · rw [heq]
        obtain ⟨hl, hex⟩ := asBefore_sendHome (hover OVER_TIMEOUT) hi e
        exact ⟨hl, fun r => (hex r).trans (ht.2 r)⟩
      · rw [heq]
        exact ⟨hover _, ht.2⟩
    · exact fun t i j hj hmem => mem_checkTaskTimeout hj hmem
  · exact ⟨h, fun _ => rfl⟩

/-! ## 5. Runs -/

/-- The condition on a step: `pfs_set_task` gets a node that is in no queue. -/
def SetsLoose (g : Sig) : PoolAct → Prop
  | .set _ i _ => ∀ q, i ∉ g.pool.q q
  | _ => True

/-- What a step does to the counters: `pfs_set_task` of a linked node apart, nothing. -/
theorem pool_step {cfg : Cfg} {g' : Sig} {a : PoolAct} (h : WellLinked g.pool)
    (hs : poolNext cfg g a = some g') : WellLinked g'.pool ∧
      (∀ r, g.pool.excess r ≤ g'.pool.excess r ∧ g'.pool.excess r ≤ g.pool.excess r + 1) ∧
      (SetsLoose g a → ∀ r, g'.pool.excess r = g.pool.excess r) := by
  have hkept : (∀ r, g'.pool.excess r = g.pool.excess r) →
      ∀ r, g.pool.excess r ≤ g'.pool.excess r ∧ g'.pool.excess r ≤ g.pool.excess r + 1 := by
    intro hex r
    rw [hex r]
    omega
  cases a with
  | get e q =>
    obtain ⟨⟨i, p⟩, hg, rfl⟩ := Option.map_eq_some_iff.mp hs
    obtain ⟨hl, hex, -⟩ := linked_get h hg
    exact ⟨hl, hkept hex, fun _ => hex⟩
  | set e i q =>
    simp only [poolNext] at hs
    split at hs
    · rename_i hi
      cases hs
      refine ⟨linked_set h hi e q, ?_, fun hloose => excess_set_loose h hloose e q⟩
      intro r
      change _ ≤ (e.set i q g.pool).excess r ∧ (e.set i q g.pool).excess r ≤ _
      rw [excess_set h]
      split <;> omega
    · cases hs
  | write i base sub =>
    cases hs
    have hl : WellLinked (g.pool.store i base sub) := h.modify i fun _ => rfl
    exact ⟨hl, hkept fun _ => rfl, fun _ _ => rfl⟩
  | timeout e q =>
    cases hs
    obtain ⟨hl, hex⟩ := asBefore_scanTimeout h cfg e q
    exact ⟨hl, hkept hex, fun _ => hex⟩
  | clean e =>
    cases hs
    obtain ⟨hl, hex⟩ := asBefore_cleanTask h e
    exact ⟨hl, hkept hex, fun _ => hex⟩
  | free e =>
    cases hs
    obtain ⟨hl, hex⟩ := asBefore_scanHome h e
    exact ⟨hl, hkept hex, fun _ => hex⟩

end Steps

theorem initTaskInfo_q (q : TaskQ) :
    initTaskInfo.q q = if q = .home then homeInit 2048 else [] := by
  by_cases hq : q = .home
  · subst hq
    rfl
  rw [if_neg hq]
  change update (fun _ => []) TaskQ.home (homeInit 2048) q = []
  rw [update_of_ne hq]

theorem linked_initTaskInfo : WellLinked initTaskInfo := by
  refine ⟨?_, ?_, ?_⟩
  · intro q i hi
    rw [initTaskInfo_q] at hi
    split at hi
    · rename_i hq
      rw [hq]
      rfl
    · cases hi
  · intro q
    rw [initTaskInfo_q]
    split
    · exact nodup_homeInit 2048
    · exact List.nodup_nil
  · intro q i hi
    rw [initTaskInfo_q] at hi
    split at hi
    · exact mem_homeInit.mp hi
    · cases hi

theorem excess_initTaskInfo (q : TaskQ) :
    initTaskInfo.excess q = if q = .home then -2048 else 0 := by
  unfold Pool.excess
  rw [initTaskInfo_q]
  split
  · rw [length_homeInit]
    rfl
  · rfl

theorem linked_of_run {cfg : Cfg} {g : Sig} (h : Reach (poolNext cfg) Sig.init g) :
    WellLinked g.pool :=
  h.inv (I := fun g => WellLinked g.pool) linked_initTaskInfo
    fun _ _ _ hl _ hs => (pool_step hl hs).1

theorem WellLinked.length_le {p : Pool} (h : WellLinked p) (q : TaskQ) :
    (p.q q).length ≤ p.fresh := by
  have hsub : p.q q ⊆ List.range p.fresh := fun i hi => List.mem_range.mpr (h.fresh q i hi)
  simpa using (List.subperm_of_subset (h.nodup q) hsub).length_le

/-- **No counter falls behind** what it is at the start, in any sequence of calls that is short
    enough for an `int`: every call puts it ahead by one at most. -/
theorem counter_not_behind {cfg : Cfg} {g : Sig} {acts : List PoolAct}
    (h : exec (poolNext cfg) Sig.init acts = some g) (hroom : acts.length + g.pool.fresh < 2 ^ 31)
    (q : TaskQ) :
    (g.pool.q q).length ≤ toInt32 (g.pool.taskcount q) + if q = .home then 2048 else 0 := by
  obtain ⟨hl, hex⟩ : WellLinked g.pool ∧ ∀ r, initTaskInfo.excess r ≤ g.pool.excess r ∧
      g.pool.excess r ≤ initTaskInfo.excess r + (0 + acts.length : Nat) := by
    refine exec_bound (I := fun n g => WellLinked g.pool ∧ ∀ r,
      initTaskInfo.excess r ≤ g.pool.excess r ∧ g.pool.excess r ≤ initTaskInfo.excess r + n)
      ?_ ⟨linked_initTaskInfo, fun r => ?_⟩ h
    · intro n g g' a hI hs
      obtain ⟨hl, hle, -⟩ := pool_step hI.1 hs
      refine ⟨hl, fun r => ?_⟩
      have := hI.2 r
      have := hle r
      omega
    · change initTaskInfo.excess r ≤ initTaskInfo.excess r ∧
        initTaskInfo.excess r ≤ initTaskInfo.excess r + (0 : Nat)
      omega
  have hlen := hl.length_le q
  have hex := hex q
  rw [excess_initTaskInfo] at hex
  unfold Pool.excess at hex
  by_cases hq : q = .home
  · rw [if_pos hq] at hex ⊢
    rw [toInt32_eq_self (by omega) (by omega)]
    omega
  · rw [if_neg hq] at hex ⊢
    rw [toInt32_eq_self (by omega) (by omega)]
    omega

/-- **The counters are the lengths of their queues**, but for TASK_Q_HOME, whose counter is 2048
    behind, and every linked node has the status of its queue, in every run in which `pfs_set_task`
    is only given nodes that are in no queue. -/
theorem counts_of_run {cfg : Cfg} {g : Sig} (h : Run (poolNext cfg) SetsLoose Sig.init g)
    (q : TaskQ) :
    (q ≠ .home → g.pool.taskcount q = (g.pool.q q).length) ∧
      (q = .home → g.pool.taskcount q + 2048 = (g.pool.q q).length) ∧
      ∀ i ∈ g.pool.q q, (g.pool.node i).status = some q := by
  have hI : AsBefore initTaskInfo g.pool := by
    refine h.inv (I := fun g => AsBefore initTaskInfo g.pool) ⟨linked_initTaskInfo, fun _ => rfl⟩ ?_
    intro g g' a hI hok hs
    obtain ⟨hl, -, hex⟩ := pool_step hI.1 hs
    exact ⟨hl, fun r => (hex hok r).trans (hI.2 r)⟩
  have hex := hI.2 q
  rw [excess_initTaskInfo] at hex
  unfold Pool.excess at hex
  refine ⟨?_, ?_, hI.1.status q⟩
  · intro hq
    rw [if_neg hq] at hex
    omega
  · intro hq
    rw [if_pos hq] at hex
    omega

/-! ## 6. A transfer -/

def afterCalls (acts : List PoolAct) : Sig := (exec (poolNext smallCfg) Sig.init acts).getD Sig.init

/-- A task is made and waits, `check_task` takes it and it is being received. -/
def transferStarts : List PoolAct :=
  [.get (smallEnv 5) .home, .set (smallEnv 5) 2047 .wait, .get (smallEnv 5) .wait,
    .set (smallEnv 5) 2047 .recv]

def transferEnds : List PoolAct := transferStarts ++ [.set (smallEnv 6) 2047 .fin]

theorem counter_not_behind_transfer : ((afterCalls transferEnds).pool.q .home).length ≤
    toInt32 ((afterCalls transferEnds).pool.taskcount .home) + 2048 :=
  @counter_not_behind smallCfg _ transferEnds rfl (by decide +kernel) .home

theorem counts_of_run_started :
    (afterCalls transferStarts).pool.taskcount .recv =
        ((afterCalls transferStarts).pool.q .recv).length ∧
      (afterCalls transferStarts).pool.q .recv = [2047] := by
  have h₁ : Run (poolNext smallCfg) SetsLoose Sig.init (afterCalls (transferStarts.take 1)) :=
    .next (a := .get (smallEnv 5) .home) .start trivial rfl
  have h₂ : Run (poolNext smallCfg) SetsLoose Sig.init (afterCalls (transferStarts.take 2)) :=
    .next (a := .set (smallEnv 5) 2047 .wait) h₁
      (@linked_get _ _ (smallEnv 5) _ .home linked_initTaskInfo rfl).2.2 rfl
  have h₃ : Run (poolNext smallCfg) SetsLoose Sig.init (afterCalls (transferStarts.take 3)) :=
    .next (a := .get (smallEnv 5) .wait) h₂ trivial rfl
  have hl := linked_of_run (h₂.mono fun _ _ _ => trivial)
  have h₄ : Run (poolNext smallCfg) SetsLoose Sig.init (afterCalls transferStarts) :=
    .next (a := .set (smallEnv 5) 2047 .recv) h₃
      (@linked_get _ _ (smallEnv 5) _ .wait hl rfl).2.2 rfl
  exact ⟨(counts_of_run h₄ .recv).1 (by decide), by decide +kernel⟩

/-- **A transfer leaves its count**: the task that was received is set to TASK_Q_FIN, and
    `taskcount[TASK_Q_RECV]` stays 1 with nothing in the queue. The counter of TASK_Q_HOME is wrong
    as soon as `init_task_info` returns. -/
theorem transfer_keeps_count :
    (∃ g, Reach (poolNext smallCfg) Sig.init g ∧ g.pool.q .recv = [] ∧ g.pool.taskcount .recv = 1) ∧
      Sig.init.pool.taskcount .home = 0 ∧ (Sig.init.pool.q .home).length = 2048 := by
  refine ⟨⟨afterCalls transferEnds, ?_, by decide +kernel, by decide +kernel⟩, rfl, ?_⟩
  · exact reach_of_exec transferEnds .start rfl
  · exact length_homeInit 2048

end Pfs
