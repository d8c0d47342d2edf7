/-
  Finished source tasks are reported to the members of the domain: none is lost, and
  each member gets them in order.

  Both hold in every run whose steps meet a condition, and both fail without it.

  Main results: `reports_carried`, `report_lost_by_disconnect`, `reports_in_order`,
  `reports_out_of_order`.
-/
import Pfs.Delayed

namespace Pfs

open Lib

variable {cfg : Cfg} {s : Storage}

/-! ## 1. Nothing is lost -/

/-- The NEWTASK_REQ of operation `k` to a member: completely sent, in the send buffer of a
    connection to it, held by a task in TASK_Q_WAIT_SYNC or TASK_Q_WAIT_SYNC_IP that is addressed
    to it, or held by one that has expired. -/
def Reported (s : Storage) (k : Nat) (ip : UInt32) : Prop :=
  (k, ip) ∈ s.sent ∨ (∃ p ∈ s.peers, p.ip = ip ∧ ∃ m ∈ p.out, m.op = some k) ∨
    (∃ i, (i ∈ s.pool.q .waitSync ∨ i ∈ s.pool.q .waitSyncIp) ∧
      (s.pool.node i).op = some k ∧ (s.pool.node i).sub.peerip = ip) ∨
    ∃ x ∈ s.expired, x.op = some k ∧ x.ip = ip

theorem reported_of_carried {k : Nat} {ip : UInt32} (h : s.book.Carried k ip) :
    Reported s k ip := by
  have hdelayed (q : TaskQ) (hx : (some k, ip) ∈ s.pool.line q) :
      ∃ i ∈ s.pool.q q, (s.pool.node i).op = some k ∧ (s.pool.node i).sub.peerip = ip := by
    obtain ⟨i, hi, he⟩ := List.mem_map.mp hx
    exact ⟨i, hi, (Prod.mk.inj he).1, (Prod.mk.inj he).2⟩
  rcases h with h | h | h | h | h
  · exact .inl h
  · exact .inr (.inl h)
  · obtain ⟨i, hi, hn⟩ := hdelayed _ h
    exact .inr (.inr (.inl ⟨i, .inl hi, hn⟩))
  · obtain ⟨i, hi, hn⟩ := hdelayed _ h
    exact .inr (.inr (.inl ⟨i, .inr hi, hn⟩))
  · exact .inr (.inr (.inr h))

/-- **No report is lost** in a run whose steps all meet `ReportsKept`: every source task that
    `do_fin_task` has finished is reported to every other member that is not marked offline. -/
theorem reports_carried (h : Run (next cfg) ReportsKept Storage.init s) :
    ∀ k < s.popped, ∀ m ∈ cfg.members, m.ip ≠ cfg.selfIp → m.offline = false →
      Reported s k m.ip := by
  have hi : Inv (compared none) cfg s ∧ Book.Accounted cfg.others s.book := by
    refine Run.inv (I := fun s => Inv (compared none) cfg s ∧ Book.Accounted cfg.others s.book)
      ⟨inv_init cfg rfl, ?_⟩ (fun s t a hi hok hs => ?_) h
    · exact ⟨fun _ hk => absurd hk (Nat.not_lt_zero _), fun _ hx => by cases hx⟩
    · have hstep := next_eq_some.mp hs
      exact ⟨(step_watched hi.1 (stepOk_compared none cfg s a) (.inl rfl)).of_ok hstep,
        (step_turn hi.1 hstep).accounted hok hi.2⟩
  intro k hk m hm hself hoff
  have hother : m.ip ∈ cfg.others :=
    List.mem_map_of_mem (List.mem_filter.mpr ⟨hm, by simp [hself, hoff]⟩)
  exact reported_of_carried (hi.2.carried _ (hi.2.owed k hk _ hother))

def deletion (fd : Fd) (now : Int) : List Act :=
  [.accept .up fd 5,
    .recvMsg fd (baseHead CMD_PUT_FILE_REQ 1) (smallBase TASK_DELFILE (ascii "/1/a")) (smallEnv now)
      (smallEnv now)]

def smallPass (now : Int) : PassEnv where
  unpark := fun _ => smallEnv now
  unparkDir := fun _ => smallEnv now
  delay := fun _ => smallEnv now
  fin := fun _ _ => smallEnv now
  rsp := fun _ => smallEnv now

/-- A deletion is reported while member 2 is connected. -/
def reportToConnected : List Act :=
  deletion 3 9 ++ [.sigConnect 9 2, .sigCheck (smallPass 9)]

theorem reports_carried_of_connected :
    ∃ s, exec (next smallCfg) Storage.init reportToConnected = some s ∧ s.popped = 1 ∧
      Reported s 0 2 ∧ Reported s 0 3 := by
  have hpass : ReportsKept Storage.init (.sigCheck (smallPass 9)) :=
    ⟨fun _ => rfl, fun _ => rfl, fun _ _ => ⟨rfl, rfl, rfl⟩⟩
  have hmeets : Meets (next smallCfg) ReportsKept Storage.init reportToConnected :=
    ⟨trivial, fun _ _ => ⟨trivial, fun _ _ => ⟨trivial, fun _ _ => ⟨hpass, fun _ _ => trivial⟩⟩⟩⟩
  have hall := reports_carried (run_of_exec reportToConnected .start hmeets rfl)
  exact ⟨_, rfl, rfl, hall 0 (by decide) ⟨2, false⟩ (by decide) (by decide) rfl,
    hall 0 (by decide) ⟨3, false⟩ (by decide) (by decide) rfl⟩

/-- **A disconnect loses what is in the send buffer**: member 2 is never told of the deletion. -/
theorem report_lost_by_disconnect : ∃ s, Reach (next smallCfg) Storage.init s ∧ s.popped = 1 ∧
    ⟨2, false⟩ ∈ smallCfg.members ∧ ¬ Reported s 0 2 := by
  refine ⟨_, reach_of_exec (reportToConnected ++ [.sigClose 9]) .start rfl, rfl, by decide, ?_⟩
  rintro (h | ⟨p, hp, -⟩ | ⟨i, hi | hi, -, hip⟩ | ⟨x, hx, -⟩)
  · cases h
  · cases hp
  · -- the only delayed task is the one for member 3
    cases List.mem_singleton.mp hi
    exact absurd hip (by decide)
  · cases hi
  · cases hx

/-! ## 2. Order -/

/-- **Reports to one member are put on connections in the order in which `do_fin_task` finished the
    tasks**, in a run whose steps all meet `QueuesServed`. -/
theorem reports_in_order (h : Run (next cfg) (QueuesServed cfg) Storage.init s) :
    s.puts.Pairwise fun x y => x.2 = y.2 → x.1 ≤ y.1 := by
  have hi : Inv (compared none) cfg s ∧ s.book.Ordered := by
    refine Run.inv (I := fun s => Inv (compared none) cfg s ∧ s.book.Ordered)
      ⟨inv_init cfg rfl, ?_⟩ (fun s t a hi hok hs => ?_) h
    · exact ⟨List.Pairwise.nil, List.Pairwise.nil, fun x hx => by
        rcases hx with hx | hx | hx <;> cases hx⟩
    · have hstep := next_eq_some.mp hs
      exact ⟨(step_watched hi.1 (stepOk_compared none cfg s a) (.inl rfl)).of_ok hstep,
        (step_turn hi.1 hstep).ordered hok hi.2⟩
  exact hi.2.puts

/-- A deletion is reported after member 2 has connected, and another one at once. -/
def reportInTurn : List Act :=
  deletion 3 9 ++ [.sigCheck (smallPass 9), .sigConnect 9 2] ++ deletion 4 10 ++
    [.sigCheck (smallPass 10)]

theorem reports_in_order_of_turn :
    ∃ s, exec (next smallCfg) Storage.init reportInTurn = some s ∧ s.puts = [(0, 2), (1, 2)] ∧
      s.puts.Pairwise fun x y => x.2 = y.2 → x.1 ≤ y.1 := by
  -- no member has a task in TASK_Q_WAIT_SYNC_IP when a pass starts
  have hpass (s : Storage) (now : Int) (hlen : (s.pool.q .waitSync).length ≤ 8)
      (hnone : s.pool.q .waitSyncIp = []) :
        QueuesServed smallCfg s (.sigCheck (smallPass now)) := by
    refine ⟨fun _ => rfl, fun _ => rfl, ?_, fun i _ j hj => ?_⟩
    · rw [hnone]
      exact hlen
    · rw [hnone] at hj
      cases hj
  have hmeets : Meets (next smallCfg) (QueuesServed smallCfg) Storage.init reportInTurn := by
    refine ⟨trivial, fun _ h₁ => ⟨trivial, fun _ h₂ => ?_⟩⟩
    cases h₁
    cases h₂
    refine ⟨hpass _ _ (by decide) rfl, fun _ h₃ => ⟨trivial, fun _ h₄ => ⟨trivial, fun _ h₅ =>
      ⟨trivial, fun _ h₆ => ?_⟩⟩⟩⟩
    cases h₃
    cases h₄
    cases h₅
    cases h₆
    exact ⟨hpass _ _ (by decide) rfl, fun _ _ => trivial⟩
  exact ⟨_, rfl, rfl, reports_in_order (run_of_exec reportInTurn .start hmeets rfl)⟩

/-- Two deletions while member 2 is not connected, each followed by a pass. -/
def reportsDelayed : List Act :=
  deletion 3 9 ++ [.sigCheck (smallPass 9)] ++ deletion 4 10 ++ [.sigCheck (smallPass 10)]

/-- **The second deletion overtakes the first**: the pass that finishes it has parked the first
    one, and the next pass lines up what is parked behind it. -/
theorem reports_out_of_order : ∃ s, Reach (next smallCfg) Storage.init s ∧
    s.puts = [(1, 2), (0, 2)] ∧ ¬ s.puts.Pairwise fun x y => x.2 = y.2 → x.1 ≤ y.1 := by
  refine ⟨_, reach_of_exec (reportsDelayed ++ [.sigConnect 9 2, .sigCheck (smallPass 11)]) .start
    rfl, rfl, fun h => ?_⟩
  exact absurd (List.rel_of_pairwise_cons h (List.mem_singleton.mpr rfl) rfl) (by decide)

end Pfs
