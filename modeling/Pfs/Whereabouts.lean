/-
  Where the task nodes are: the pool's queues and the tasks of the connections.

  The storage as a depot (Lib/Custody.lean): a node is linked in a queue of the pool, and a
  connection holds it as `recvtask` or as `sendtask`. A receive task counts as held in another slot
  from RECVFILEING on, since it then has a temporary file.
-/
import Pfs.Lib.Custody
import Pfs.Machine

namespace Pfs

open Lib Function

/-! ## 1. The view -/

/-- What a node carries: all but its queue mark and the time of its last use. -/
structure Item where
  base : TaskBase
  sub : TaskSub
  born : Int
  op : Option Nat

def Tasklist.item (n : Tasklist) : Item := ⟨n.base, n.sub, n.born, n.op⟩

/-- The tasks a connection can hold: one to receive, one being received, one to send. `hand` is no
    connection's: a handler of the signalling service holds a node there while it takes others. -/
inductive Kind where
  | recv
  | file
  | send
  | hand
  deriving DecidableEq, Repr

/-- The queue `check_task` or `do_send_task` links such a task in. -/
def Kind.queue : Kind → TaskQ
  | .recv => .recv
  | .file => .recv
  | .send => .send
  | .hand => .recv

structure Slot where
  fd : Fd
  kind : Kind
  deriving DecidableEq, Repr

def Peer.slot (p : Peer) : Kind → Option NodeId
  | .recv => if p.sockStat = .recvfileing then none else p.recvtask
  | .file => if p.sockStat = .recvfileing then p.recvtask else none
  | .send => p.sendtask
  | .hand => none

def slots (conn : Fd → Option Peer) (w : Slot) : Option NodeId := (conn w.fd).bind (·.slot w.kind)

abbrev Place := Loc TaskQ Slot

def Pool.depot (p : Pool) (sl : Slot → Option NodeId) : Depot TaskQ Slot NodeId Item where
  queue := p.q
  slot := sl
  data := fun i => (p.node i).item

def Stored (P : Place → Item → Prop) (p : Pool) (sl : Slot → Option NodeId) : Prop :=
  Keeps P (· < p.fresh) (p.depot sl)

/-- Every allocated node but `i`, which is at `l`. -/
def InHand (P : Place → Item → Prop) (p : Pool) (sl : Slot → Option NodeId) (i : NodeId)
    (l : Place) :
    Prop :=
  Focus P (· < p.fresh) (p.depot sl) i l

/-! ## 2. Queues -/

section Queues

variable {P : Place → Item → Prop} {p p' : Pool} {sl : Slot → Option NodeId} {i : NodeId} {l :
  Place}
variable {e : Env} {q : TaskQ}

theorem depot_modify (p : Pool) (i : NodeId) (f : Tasklist → Tasklist) (sl : Slot → Option NodeId) :
    (p.modify i f).depot sl = (p.depot sl).setData i (f (p.node i)).item := by
  have hdata : (fun j => (update p.node i (f (p.node i)) j).item) =
      update (fun j => (p.node j).item) i (f (p.node i)).item :=
    funext fun j => Function.apply_update (fun _ => Tasklist.item) p.node i _ j
  simp only [Pool.depot, Pool.modify, Depot.setData, hdata]

theorem InHand.modify (h : InHand P p sl i l) (f : Tasklist → Tasklist) :
    InHand P (p.modify i f) sl i l := by
  have hf := Focus.setData h (f (p.node i)).item
  rw [← depot_modify] at hf
  exact hf

theorem item_update (node : NodeId → Tasklist) (i j : NodeId) {n : Tasklist}
    (hn : n.item = (node i).item) : (update node i n j).item = (node j).item := by
  by_cases hj : j = i
  · subst hj
    rw [update_self, hn]
  · rw [update_of_ne hj]

theorem node_modify_self (p : Pool) (i : NodeId) (f : Tasklist → Tasklist) :
    (p.modify i f).node i = f (p.node i) := by
  simp [Pool.modify]

theorem node_modify_ne (p : Pool) {i j : NodeId} (f : Tasklist → Tasklist) (hj : j ≠ i) :
    (p.modify i f).node j = p.node j := by
  simp [Pool.modify, update_of_ne hj]

/-- The place after `pfs_set_task`: a lock that times out changes nothing. -/
def Env.land (e : Env) (q : TaskQ) (l : Place) : Place :=
  if e.setLock q then { l with link := some q } else l

theorem InHand.unlink (h : InHand P p sl i l) :
    InHand P (p.unlink i) sl i { l with link := none } :=
  Focus.unlink h

theorem InHand.count (h : InHand P p sl i l) (q : TaskQ) (d : Int) :
    InHand P (p.count q d) sl i l := h

theorem InHand.set (h : InHand P p sl i l) (e : Env) (q : TaskQ) :
    InHand P (e.set i q p) sl i (e.land q l) := by
  unfold Env.set pfsSetTask Env.land
  by_cases hlock : e.setLock q = true
  · rw [if_pos hlock, if_pos hlock]
    have hput : InHand P ((p.unlink i).append i q) sl i { l with link := some q } := Focus.put h q
    exact (hput.modify _).count q 1
  · rw [if_neg hlock, if_neg hlock]
    exact h

@[simp]
theorem item_set (e : Env) (i j : NodeId) (q : TaskQ) (p : Pool) :
    ((e.set i q p).node j).item = (p.node j).item := by
  unfold Env.set pfsSetTask
  split
  · exact item_update p.node i j rfl
  · rfl

@[simp]
theorem fresh_set (e : Env) (i : NodeId) (q : TaskQ) (p : Pool) :
    (e.set i q p).fresh = p.fresh := by
  unfold Env.set pfsSetTask
  split <;> rfl

theorem mem_set {j : NodeId} {r : TaskQ} (hj : j ≠ i) (h : j ∈ p.q r) : j ∈ (e.set i q p).q r := by
  have hmem : j ∈ (p.unlink i).q r := List.mem_filter.mpr ⟨h, by simpa using hj⟩
  rw [Env.q_set]
  split
  · split
    · exact List.mem_append_left _ hmem
    · exact hmem
  · exact h

theorem InHand.stored (h : InHand P p sl i l) (hp : P l (p.node i).item) : Stored P p sl :=
  Focus.keeps h hp

theorem Stored.nodup (h : Stored P p sl) (q : TaskQ) : (p.q q).Nodup := by
  obtain ⟨loc, ht, -⟩ := h
  exact ht.nodup q

theorem Stored.ofQueue (h : Stored P p sl) (hq : ∀ w n, ¬ P ⟨some q, some w⟩ n) (hi : i ∈ p.q q) :
    InHand P p sl i ⟨some q, none⟩ ∧ P ⟨some q, none⟩ (p.node i).item := by
  obtain ⟨o, hf, hp⟩ := Keeps.ofQueue h hi
  cases o with
  | none => exact ⟨hf, hp⟩
  | some w => exact absurd hp (hq w _)

/-- `pfs_get_task`: the node is nowhere now. One from TASK_Q_HOME may be new. -/
theorem Stored.get (h : Stored P p sl) (hq : ∀ w n, ¬ P ⟨some q, some w⟩ n)
    (hg : e.get q p = some (i, p')) :
    InHand P p' sl i ⟨none, none⟩ ∧ (q = .home ∨ P ⟨some q, none⟩ (p'.node i).item) := by
  obtain ⟨js, hl, rfl⟩ | ⟨hhome, rfl, rfl⟩ := Env.get_cases hg
  · obtain ⟨hin, hp⟩ := h.ofQueue hq (show i ∈ p.q q by simp [hl])
    refine ⟨((hin.count q (-1)).modify _).unlink, .inr ?_⟩
    have hitem : ((((p.count q (-1)).modify i ({ · with status := none })).unlink i).node i).item =
        (p.node i).item := item_update p.node i i rfl
    rw [hitem]
    exact hp
  · refine ⟨?_, .inl hhome⟩
    have hall := Keeps.alloc h (Nat.lt_irrefl p.fresh)
    have hmod := Focus.setData hall ({ p.node p.fresh with last := e.now, status := none } :
      Tasklist).item
    rw [← depot_modify p p.fresh ({ · with last := e.now, status := none })] at hmod
    have hfresh : (fun j => j < p.fresh ∨ j = p.fresh) = (· < p.fresh + 1) :=
      funext fun j => propext Nat.lt_succ_iff_lt_or_eq.symm
    rw [hfresh] at hmod
    exact hmod

theorem Stored.get_notMem {r : TaskQ} (h : Stored P p sl) (hr : r ≠ q)
    (hg : e.get q p = some (i, p')) :
    i ∉ p.q r := by
  obtain ⟨loc, ht, hall⟩ := h
  have hlink (q : TaskQ) : i ∈ p.q q ↔ (loc i).link = some q := ht.link i q
  rw [hlink]
  obtain ⟨js, hl, rfl⟩ | ⟨-, rfl, rfl⟩ := Env.get_cases hg
  · rw [(hlink q).mp (by simp [hl])]
    exact fun he => hr (Option.some.inj he).symm
  · rw [(hall p.fresh).2 (Nat.lt_irrefl _)]
    exact fun he => by cases he

theorem item_get (hg : e.get q p = some (i, p')) (j : NodeId) :
    (p'.node j).item = (p.node j).item := by
  obtain ⟨js, -, rfl⟩ | ⟨-, rfl, rfl⟩ := Env.get_cases hg
  · exact item_update p.node i j rfl
  · exact item_update p.node _ j rfl

/-! ## 3. Slots -/

variable {w : Slot}

theorem Stored.ofSlot (h : Stored P p sl) (hw : sl w = some i) :
    ∃ q, InHand P p sl i ⟨q, some w⟩ ∧ P ⟨q, some w⟩ (p.node i).item :=
  Keeps.ofSlot h hw

theorem InHand.clear {q : Option TaskQ} (h : InHand P p sl i ⟨q, some w⟩) :
    InHand P p (update sl w none) i ⟨q, none⟩ :=
  Focus.clear h rfl

theorem InHand.drop {w : Slot} {q : Option TaskQ} (h : InHand P p sl i ⟨q, none⟩)
    (hold : sl w ≠ none → ∀ q n, P ⟨q, some w⟩ n → P ⟨q, none⟩ n) :
    InHand P p (update sl w none) i ⟨q, none⟩ := by
  refine Focus.drop h (fun hn => by cases hn) fun j hj r => ?_
  exact hold (fun hn => by rw [show (p.depot sl).slot w = sl w from rfl, hn] at hj; cases hj) r _

theorem InHand.fill {q : Option TaskQ} (h : InHand P p sl i ⟨q, none⟩) (hw : sl w = none) :
    InHand P p (update sl w (some i)) i ⟨q, some w⟩ :=
  Focus.fill h rfl hw

end Queues

section Slots

variable {conn : Fd → Option Peer} {fd : Fd} {p p' : Peer}

theorem slots_same (hp : conn fd = some p) (h : ∀ k, p'.slot k = p.slot k) :
    slots (update conn fd (some p')) = slots conn := by
  funext ⟨g, k⟩
  by_cases hg : g = fd
  · subst hg
    simp [slots, hp, h]
  · simp [slots, update_of_ne hg]

theorem slots_recv (hp : conn fd = some p) (hst : p.sockStat ≠ .recvfileing)
    (hst' : p'.sockStat ≠ .recvfileing) (hs : p'.sendtask = p.sendtask) :
    slots (update conn fd (some p')) =
      update (slots conn) ⟨fd, .recv⟩ p'.recvtask := by
  funext ⟨g, k⟩
  by_cases hg : g = fd
  · subst hg
    cases k <;> simp [slots, Peer.slot, hp, hst, hst', hs]
  · simp [slots, hg]

theorem slots_send (hp : conn fd = some p) (hst : p.sockStat ≠ .recvfileing)
    (hst' : p'.sockStat ≠ .recvfileing) (hr : p'.recvtask = p.recvtask) :
    slots (update conn fd (some p')) =
      update (slots conn) ⟨fd, .send⟩ p'.sendtask := by
  funext ⟨g, k⟩
  by_cases hg : g = fd
  · subst hg
    cases k <;> simp [slots, Peer.slot, hp, hst, hst', hr]
  · simp [slots, hg]

theorem slots_received (hp : conn fd = some p) (hst : p.sockStat = .recvfileing)
    (hr : p'.recvtask = none) (hs : p'.sendtask = p.sendtask) :
    slots (update conn fd (some p')) = update (slots conn) ⟨fd, .file⟩ none := by
  funext ⟨g, k⟩
  by_cases hg : g = fd
  · subst hg
    cases k <;> simp [slots, Peer.slot, hp, hst, hr, hs]
  · simp [slots, hg]

theorem slots_file {i : NodeId} (hp : conn fd = some p) (hst' : p'.sockStat = .recvfileing)
    (hr : p'.recvtask = some i) (hs : p'.sendtask = p.sendtask) :
    slots (update conn fd (some p')) =
      update (update (slots conn) ⟨fd, .recv⟩ none) ⟨fd, .file⟩ (some i) := by
  funext ⟨g, k⟩
  by_cases hg : g = fd
  · subst hg
    cases k <;> simp [slots, Peer.slot, hp, hst', hr, hs]
  · simp [slots, hg]

theorem slots_new (hp : conn fd = none) (hr : p'.recvtask = none) (hs : p'.sendtask = none) :
    slots (update conn fd (some p')) = slots conn := by
  funext ⟨g, k⟩
  by_cases hg : g = fd
  · subst hg
    cases k <;> simp [slots, hp, Peer.slot, hr, hs]
  · simp [slots, update_of_ne hg]

theorem slots_hand (conn : Fd → Option Peer) (fd : Fd) : slots conn ⟨fd, .hand⟩ = none := by
  unfold slots
  cases conn fd <;> rfl

end Slots

end Pfs
