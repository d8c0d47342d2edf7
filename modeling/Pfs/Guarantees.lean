/-
  What holds in every state that a storage reaches: its task nodes are conserved, the
  paths it touches are confined, and only overdue tasks expire.

  Each of the three holds in every run whose steps meet a condition, and each fails without it.

  Main results: `tasks_conserved`, `tasks_lost_by_second_request`, `paths_confined`,
  `paths_escape`, `expired_overdue`, `directory_task_expires_at_once`.
-/
import Mathlib.Data.List.Nodup
import Pfs.Watch.Run

namespace Pfs

open Lib Function

variable {cfg : Cfg} {s : Storage}

/-! ## 1. Task nodes are conserved -/

/-- A node is linked in `link` and nowhere else, and it is the `recvtask` of `recv` and the
    `sendtask` of `send` and of no other live connection. -/
def Placed (s : Storage) (i : NodeId) (link : Option TaskQ) (recv send : Option Fd) : Prop :=
  (∀ q, (s.pool.q q).count i = if link = some q then 1 else 0) ∧
    (∀ fd, (∃ p, s.conn fd = some p ∧ p.recvtask = some i) ↔ recv = some fd) ∧
    ∀ fd, (∃ p, s.conn fd = some p ∧ p.sendtask = some i) ↔ send = some fd

/-- Every node is in one place: in a queue; in TASK_Q_RECV and the receive task of a connection; in
    TASK_Q_SEND and the send task of a connection; or the receive task of a connection only. -/
def Conserved (s : Storage) : Prop :=
  ∀ i < s.pool.fresh,
    (∃ q, q ≠ .recv ∧ q ≠ .send ∧ Placed s i (some q) none none) ∨
      (∃ fd, Placed s i (some .recv) (some fd) none) ∨
      (∃ fd, Placed s i (some .send) none (some fd)) ∨ ∃ fd, Placed s i none (some fd) none

theorem recvtask_iff {fd : Fd} {i : NodeId} : (∃ p, s.conn fd = some p ∧ p.recvtask = some i) ↔
    slots s.conn ⟨fd, .recv⟩ = some i ∨ slots s.conn ⟨fd, .file⟩ = some i := by
  cases hp : s.conn fd with
  | none => simp [slots, hp]
  | some p => by_cases hst : p.sockStat = .recvfileing <;> simp [slots, hp, Peer.slot, hst]

theorem sendtask_iff {fd : Fd} {i : NodeId} : (∃ p, s.conn fd = some p ∧ p.sendtask = some i) ↔
    slots s.conn ⟨fd, .send⟩ = some i := by
  cases hp : s.conn fd with
  | none => simp [slots, hp]
  | some p => simp [slots, hp, Peer.slot]

/-- The connection of an owner that receives, and of one that sends. -/
def recvOwner : Option Slot → Option Fd
  | some ⟨fd, .recv⟩ => some fd
  | some ⟨fd, .file⟩ => some fd
  | _ => none

def sendOwner : Option Slot → Option Fd
  | some ⟨fd, .send⟩ => some fd
  | _ => none

theorem placed_of_tracks {loc : NodeId → Place} (ht : Lib.Tracks (s.pool.depot (slots s.conn)) loc)
    (i : NodeId) : Placed s i (loc i).link (recvOwner (loc i).owner) (sendOwner (loc i).owner) := by
  have howner (w : Slot) : slots s.conn w = some i ↔ (loc i).owner = some w := ht.owner i w
  refine ⟨fun q => ?_, fun fd => ?_, fun fd => ?_⟩
  · have hlink : i ∈ s.pool.q q ↔ (loc i).link = some q := ht.link i q
    split
    · rename_i hq
      exact List.count_eq_one_of_mem (ht.nodup q) (hlink.mpr hq)
    · rename_i hq
      exact List.count_eq_zero.mpr fun hm => hq (hlink.mp hm)
  · rw [recvtask_iff, howner, howner]
    rcases (loc i).owner with _ | ⟨g, k⟩
    · simp [recvOwner]
    · cases k <;> simp [recvOwner]
  · rw [sendtask_iff, howner]
    rcases (loc i).owner with _ | ⟨g, k⟩
    · simp [sendOwner]
    · cases k <;> simp [sendOwner]

def watchPlaces : Watch := ⟨True, False, False, none⟩

/-- **Task nodes are conserved** in every run whose steps all meet `TasksKept`. -/
theorem tasks_conserved (h : Run (next cfg) TasksKept Storage.init s) : Conserved s := by
  have hi : Inv watchPlaces cfg s := by
    refine inv_of_run rfl (h.mono fun s a ha => ⟨fun _ => ha, ?_, ?_⟩)
    · exact fun hf => hf.elim
    · exact fun hf => hf.elim
  obtain ⟨loc, ht, hall⟩ := hi.tasks.stored
  intro i hfresh
  have hpolicy := (hall i).1 hfresh
  have hplaced := placed_of_tracks ht i
  have howner (w : Slot) : slots s.conn w = some i ↔ (loc i).owner = some w := ht.owner i w
  rcases hloc : loc i with ⟨link, _ | ⟨fd, k⟩⟩
  · rw [hloc] at hpolicy hplaced
    cases link with
    | none => exact absurd trivial hpolicy
    | some q =>
      obtain ⟨hrecv, hsend⟩ := hpolicy.1 trivial
      exact .inl ⟨q, hrecv, hsend, hplaced⟩
  have hslot : slots s.conn ⟨fd, k⟩ = some i := (howner _).mpr (by rw [hloc])
  rw [hloc] at hpolicy hplaced
  obtain ⟨hlink, -⟩ := hpolicy
  cases k with
  | hand =>
    rw [slots_hand] at hslot
    cases hslot
  | send =>
    rcases hlink with ⟨-, hne⟩ | rfl
    · exact absurd rfl (hne trivial)
    · exact .inr (.inr (.inl ⟨fd, hplaced⟩))
  | recv =>
    rcases hlink with ⟨rfl, -⟩ | rfl
    · exact .inr (.inr (.inr ⟨fd, hplaced⟩))
    · exact .inr (.inl ⟨fd, hplaced⟩)
  | file =>
    rcases hlink with ⟨rfl, -⟩ | rfl
    · exact .inr (.inr (.inr ⟨fd, hplaced⟩))
    · exact .inr (.inl ⟨fd, hplaced⟩)

def oneRequest : List Act :=
  [.accept .data 3 5,
    .recvMsg 3 (baseHead CMD_GET_FILE_REQ 0) (smallBase TASK_ADDFILE (ascii "/d/1/a")) (smallEnv 9)
      (smallEnv 9)]

theorem tasks_conserved_of_request : ∃ s, exec (next smallCfg) Storage.init oneRequest = some s ∧
    s.pool.q .send = [2047] ∧ Conserved s := by
  have hsets : ∀ e, e = smallEnv 9 ∨ e = smallEnv 9 → e.Sets := by
    rintro e (rfl | rfl) q - <;> rfl
  have hmeets : Meets (next smallCfg) TasksKept Storage.init oneRequest := by
    refine ⟨⟨fun _ h => h.elim, trivial⟩, fun s hs => ⟨⟨hsets, fun p hp => ?_⟩, fun _ _ => trivial⟩⟩
    cases hs
    cases hp
    exact ⟨fun _ => ⟨rfl, rfl⟩, fun _ => rfl⟩
  exact ⟨_, rfl, rfl, tasks_conserved (run_of_exec oneRequest .start hmeets rfl)⟩

/-- **A second request on the connection loses the first task**: its node stays in TASK_Q_SEND, and
    no connection knows it. -/
theorem tasks_lost_by_second_request : ∃ s, Reach (next smallCfg) Storage.init s ∧
    ¬ Conserved s := by
  refine ⟨_, reach_of_exec (oneRequest ++ oneRequest) .start rfl, fun hc => ?_⟩
  rcases hc 2047 (by decide) with ⟨q, -, hsend, hq, -⟩ | ⟨fd, hq, -⟩ | ⟨fd, -, -, hs⟩ | ⟨fd, hq, -⟩
  · have := hq .send
    rw [if_neg (by simp [hsend])] at this
    exact absurd this (by decide)
  · exact absurd (hq .send) (by decide)
  · obtain ⟨p, hp, hsend⟩ := (hs fd).mpr rfl
    have hconn : update (update (update (fun _ => none) 3 _) 3 _) 3 _ fd =
      some p := hp
    by_cases hfd : fd = 3
    · subst hfd
      cases hp
      exact absurd hsend (by decide)
    · rw [update_of_ne hfd, update_of_ne hfd, update_of_ne hfd] at hconn
      cases hconn
  · exact absurd (hq .send) (by decide)

/-! ## 2. Paths are confined -/

def watchStamps : Watch := ⟨False, False, True, none⟩

/-- **A task that expires is older than `task_timeout`** in every run whose steps all meet
    `StampsFresh`. -/
theorem expired_overdue (h : Run (next cfg) StampsFresh Storage.init s) :
    ∀ x ∈ s.expired, cfg.taskTimeout < x.now - x.born := by
  have hi : Inv watchStamps cfg s := by
    refine inv_of_run rfl (h.mono fun s a ha => ⟨?_, ?_, fun _ => ha⟩)
    · exact fun hf => hf.elim
    · exact fun hf => hf.elim
  exact hi.expired trivial

/-- The operator has a file fetched, and nobody answers. -/
def unanswered : List Act :=
  [.possFile (smallEnv 100) (ascii "/d/1/a") 2, .timeout (smallEnv 200)]

theorem expired_overdue_of_unanswered : ∃ s, exec (next smallCfg) Storage.init unanswered = some s ∧
    s.expired = [⟨200, 100, none, 2⟩] ∧ ∀ x ∈ s.expired, 60 < x.now - x.born := by
  have hmeets : Meets (next smallCfg) StampsFresh Storage.init unanswered :=
    ⟨trivial, fun _ _ => ⟨trivial, fun _ _ => trivial⟩⟩
  exact ⟨_, rfl, rfl, expired_overdue (run_of_exec unanswered .start hmeets rfl)⟩

/-- A member has a directory synchronised, and a second later the tasks are checked. -/
def syncThenCheck : List Act :=
  [.sigConnect 9 2, .syncDirReq 9 [] (smallEnv 1000),
    .syncDir (smallEnv 1000) (fun _ => smallEnv 1000) (some [⟨ascii "/d/1/a", 2, 0, []⟩]),
    .timeout (smallEnv 1001)]

/-- **The task of a file in a directory has no time stamp** and expires at once. -/
theorem directory_task_expires_at_once : ∃ s, Reach (next smallCfg) Storage.init s ∧
    ∃ x ∈ s.expired, x.now - x.born = 1 ∧ ¬ smallCfg.taskTimeout < x.now - x.born := by
  refine ⟨_, reach_of_exec syncThenCheck .start rfl, ⟨1001, 1000, none, 2⟩, ?_, by decide, by
    decide⟩
  exact List.mem_singleton.mpr rfl

end Pfs
