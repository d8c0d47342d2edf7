/-
  What is watched at every task node, and when a step may be taken.

  Three things are watched at once, each of them or none: that no node is lost or shared
  (`strict`), that the names in its record stay inside the data directory (`path`), and that its
  time stamp is not older than the task (`time`). `Policy` says what this means for a node at a
  place. An unwatched node may be lost, but it never is in a queue and held by a connection that
  does not belong to the queue; the rest depends on that. The delayed tasks of the signalling
  service can be compared with those of an earlier state (`ref`).
-/
import Pfs.Book
import Pfs.Whereabouts

namespace Pfs

open Lib Function

/-! ## 1. The policy -/

/-- The parts of the invariant that a theorem needs. -/
structure Watch where
  strict : Prop
  path : Prop
  time : Prop
  /-- an earlier state of the signalling service -/
  ref : Option Sig

/-- A record that `check_task` may take up: a temporary name is confined, and the file name is,
    or will be by the conversion that a positive size brings about. -/
def WaitOk (datadir : Path) (b : TaskBase) : Prop :=
  (b.tmpfile = [] ∨ Confined datadir b.tmpfile) ∧
    (Confined datadir b.filename ∨ slash ∈ b.filename ∧ 0 < b.fsize)

/-- A record in a queue. From TASK_Q_FIN only a failed digest leads back to TASK_Q_WAIT. -/
def PathQueued (datadir : Path) (q : TaskQ) (b : TaskBase) : Prop :=
  match q with
  | .wait | .waitTmp | .syncDir | .syncDirTmp => WaitOk datadir b
  | .fin => b.overstatus = OVER_E_MD5 → WaitOk datadir b
  | _ => True

def PathHeld (datadir : Path) (k : Kind) (b : TaskBase) : Prop :=
  match k with
  | .recv => Confined datadir b.filename ∧ (b.tmpfile = [] ∨ Confined datadir b.tmpfile)
  | .file => Confined datadir b.filename ∧ Confined datadir b.tmpfile
  | _ => True

def InTime (n : Item) : Prop := n.born ≤ n.base.starttime ∧ n.base.overstatus ≠ OVER_TIMEOUT

structure QueuedOk (W : Watch) (datadir : Path) (q : TaskQ) (n : Item) : Prop where
  path : W.path → PathQueued datadir q n.base
  time : W.time → q ∈ scannedQueues → InTime n

structure HeldOk (W : Watch) (datadir : Path) (k : Kind) (n : Item) : Prop where
  path : W.path → PathHeld datadir k n.base
  time : W.time → InTime n

/-- The queues whose nodes no connection holds. -/
def TaskQ.Unheld (q : TaskQ) : Prop := q ≠ .recv ∧ q ≠ .send

instance (q : TaskQ) : Decidable q.Unheld := inferInstanceAs (Decidable (q ≠ .recv ∧ q ≠ .send))

/-- The queue of a node that the slot `w` holds. -/
def LinkOk (W : Watch) (q : Option TaskQ) (w : Slot) : Prop :=
  q = none ∧ (W.strict → w.kind ≠ .send) ∨ q = some w.kind.queue

/-- Where a node may be, with what it carries. -/
def Policy (W : Watch) (datadir : Path) : Place → Item → Prop
  | ⟨q, some w⟩, n => LinkOk W q w ∧ (w.kind ≠ .hand → HeldOk W datadir w.kind n)
  | ⟨some q, none⟩, n => (W.strict → q.Unheld) ∧ QueuedOk W datadir q n
  | ⟨none, none⟩, _ => ¬ W.strict

section Policy

variable {W : Watch} {datadir : Path} {q : TaskQ} {n : Item} {e : Env}

theorem policy_unheld (hq : q.Unheld) (w : Slot) (n : Item) :
    ¬ Policy W datadir ⟨some q, some w⟩ n := by
  rintro ⟨⟨hn, -⟩ | hl, -⟩
  · cases hn
  · have hk : q = w.kind.queue := Option.some.inj hl
    rcases w with ⟨fd, k⟩
    cases k with
    | send => exact hq.2 hk
    | _ => exact hq.1 hk

theorem queuedOk_of_quiet (hq : ∀ b, PathQueued datadir q b) (hs : q ∉ scannedQueues) :
    QueuedOk W datadir q n :=
  ⟨fun _ => hq _, fun _ h => absurd h hs⟩

theorem queuedOk_kind (k : Kind) : QueuedOk W datadir k.queue n := by
  cases k <;> exact queuedOk_of_quiet (fun _ => trivial) (by decide)

theorem policy_release (hs : ¬ W.strict) {l : Option TaskQ} {w : Slot}
    (h : Policy W datadir ⟨l, some w⟩ n) : Policy W datadir ⟨l, none⟩ n := by
  obtain ⟨hl, -⟩ := h
  rcases hl with ⟨rfl, -⟩ | rfl
  · exact hs
  · exact ⟨fun h => absurd h hs, queuedOk_kind _⟩

theorem policy_land {w : Slot} {l : Option TaskQ} (hl : LinkOk W l w ∨ l = none) (hq : q.Unheld)
    (hn : QueuedOk W datadir q n) (hlock : W.strict → e.setLock q = true) :
    Policy W datadir (e.land q ⟨l, none⟩) n := by
  unfold Env.land
  by_cases hset : e.setLock q = true
  · rw [if_pos hset]
    exact ⟨fun _ => hq, hn⟩
  have hs : ¬ W.strict := fun h => hset (hlock h)
  rw [if_neg hset]
  rcases hl with (⟨rfl, -⟩ | rfl) | rfl
  · exact hs
  · exact ⟨fun h => absurd h hs, queuedOk_kind _⟩
  · exact hs

end Policy

/-! ## 2. Delayed tasks -/

/-- The queues of tasks that wait for a member of the domain. -/
def TaskQ.Delayed (q : TaskQ) : Prop := q = .waitSync ∨ q = .waitSyncIp

instance (q : TaskQ) : Decidable q.Delayed :=
  inferInstanceAs (Decidable (q = .waitSync ∨ q = .waitSyncIp))

theorem kind_queue_not_delayed (k : Kind) : ¬ k.queue.Delayed := by
  cases k <;> decide

structure SameDelayed (r p : Pool) : Prop where
  queue : ∀ q, q.Delayed → p.q q = r.q q
  item : ∀ q, q.Delayed → ∀ i ∈ r.q q, (p.node i).item = (r.node i).item

def Apart (p : Pool) (i : NodeId) : Prop := ∀ q, q.Delayed → i ∉ p.q q

namespace SameDelayed

variable {r p p' : Pool} {i : NodeId} {q : TaskQ} {e : Env}

theorem refl (p : Pool) : SameDelayed p p := ⟨fun _ _ => rfl, fun _ _ _ _ => rfl⟩

theorem of_q_node (h : SameDelayed r p) (hq : ∀ q, q.Delayed → p'.q q = p.q q)
    (hn : ∀ q, q.Delayed → ∀ i ∈ p.q q, (p'.node i).item = (p.node i).item) : SameDelayed r p' where
  queue := fun q hd => (hq q hd).trans (h.queue q hd)
  item := fun q hd i hi => (hn q hd i (h.queue q hd ▸ hi)).trans (h.item q hd i hi)

theorem modify (h : SameDelayed r p) (hi : Apart p i) (f : Tasklist → Tasklist) :
    SameDelayed r (p.modify i f) := by
  refine h.of_q_node (fun _ _ => rfl) fun q hd j hj => ?_
  rw [node_modify_ne]
  rintro rfl
  exact hi q hd hj

theorem unlink_q (hi : Apart p i) (hd : q.Delayed) : (p.unlink i).q q = p.q q :=
  filter_ne_self (hi q hd)

theorem unlink (h : SameDelayed r p) (hi : Apart p i) : SameDelayed r (p.unlink i) :=
  h.of_q_node (fun _ hd => unlink_q hi hd) fun _ _ _ _ => rfl

theorem set (h : SameDelayed r p) (hi : Apart p i) (hq : ¬ q.Delayed) :
    SameDelayed r (e.set i q p) := by
  refine h.of_q_node (fun q' hd => ?_) fun _ _ j _ => item_set e i j q p
  have hne : q' ≠ q := by
    rintro rfl
    exact hq hd
  rw [Env.q_set, if_neg hne, unlink_q hi hd, ite_self]

theorem get (h : SameDelayed r p) (hi : Apart p i) (hg : e.get q p = some (i, p')) :
    SameDelayed r p' := by
  refine h.of_q_node (fun q' hd => ?_) fun _ _ j _ => item_get hg j
  obtain ⟨js, -, rfl⟩ | ⟨-, rfl, rfl⟩ := Env.get_cases hg
  · exact unlink_q hi hd
  · rfl

end SameDelayed

/-- The delayed tasks are those of the earlier state. -/
def Framed (W : Watch) (p : Pool) : Prop := ∀ r, W.ref = some r → SameDelayed r.pool p

/-- A queue that tasks may be taken from and put into. -/
def Free (W : Watch) (q : TaskQ) : Prop := q.Unheld ∧ (q.Delayed → W.ref = none)

theorem free {W : Watch} {q : TaskQ} (h : q.Unheld ∧ ¬ q.Delayed) : Free W q :=
  ⟨h.1, fun hd => absurd hd h.2⟩

variable {W : Watch} {cfg : Cfg} {g : Sig}

theorem free_of_ref {q : TaskQ} (href : W.ref = none) (h : q.Unheld) : Free W q :=
  ⟨h, fun _ => href⟩

theorem framed_of_ref (href : W.ref = none) (p : Pool) : Framed W p :=
  fun r hr => by
    cases href.symm.trans hr

section Frame

variable {W : Watch} {p p' : Pool} {i : NodeId} {q : TaskQ} {e : Env}

theorem Framed.modify (h : Framed W p) (hi : Apart p i) (f : Tasklist → Tasklist) :
    Framed W (p.modify i f) :=
  fun r hr => (h r hr).modify hi f

theorem Framed.set (h : Framed W p) (hi : Apart p i) (hq : Free W q) : Framed W (e.set i q p) := by
  intro r hr
  refine (h r hr).set hi fun hd => ?_
  rw [hq.2 hd] at hr
  cases hr

theorem InHand.apart {P : Place → Item → Prop} {sl : Slot → Option NodeId} {l : Place}
    (h : InHand P p sl i l) (hl : ∀ q, q.Delayed → l.link ≠ some q) : Apart p i := by
  obtain ⟨loc, ht, rfl, -⟩ := h
  exact fun q hd hi => hl q hd ((ht.link i q).mp hi)

end Frame

/-! ## 3. A node in hand -/

section Rules

variable (W : Watch) (datadir : Path)

/-- Every node is where it may be, and the delayed tasks are those of the earlier state. -/
structure Held (p : Pool) (sl : Slot → Option NodeId) : Prop where
  stored : Stored (Policy W datadir) p sl
  framed : Framed W p

/-- The same, but for a node that is nowhere. -/
structure Loose (p : Pool) (sl : Slot → Option NodeId) (i : NodeId) : Prop where
  inHand : InHand (Policy W datadir) p sl i ⟨none, none⟩
  framed : Framed W p

/-- The same, but for a node that the slot `w` holds. -/
structure OwnedBy (p : Pool) (sl : Slot → Option NodeId) (i : NodeId) (w : Slot) : Prop where
  place : ∃ l, LinkOk W l w ∧ InHand (Policy W datadir) p sl i ⟨l, some w⟩
  framed : Framed W p

variable {W datadir} {p p' : Pool} {sl : Slot → Option NodeId} {i : NodeId} {w : Slot} {q : TaskQ}
variable {e : Env}

theorem Loose.apart (h : Loose W datadir p sl i) : Apart p i :=
  h.inHand.apart fun _ _ hn => by cases hn

theorem OwnedBy.apart (h : OwnedBy W datadir p sl i w) : Apart p i := by
  obtain ⟨l, hl, hin⟩ := h.place
  refine hin.apart fun q hd hn => ?_
  rcases hl with ⟨rfl, -⟩ | rfl
  · cases hn
  · have hq : w.kind.queue = q := Option.some.inj hn
    exact kind_queue_not_delayed w.kind (hq ▸ hd)

theorem OwnedBy.modify (h : OwnedBy W datadir p sl i w) (f : Tasklist → Tasklist) :
    OwnedBy W datadir (p.modify i f) sl i w := by
  obtain ⟨l, hl, hin⟩ := h.place
  exact ⟨⟨l, hl, hin.modify f⟩, h.framed.modify h.apart f⟩

theorem OwnedBy.over (h : OwnedBy W datadir p sl i w) (o : UInt8) :
    OwnedBy W datadir (p.over i o) sl i w :=
  h.modify _

theorem OwnedBy.store (h : OwnedBy W datadir p sl i w) (b : TaskBase) (sub : TaskSub) :
    OwnedBy W datadir (p.store i b sub) sl i w :=
  h.modify _

theorem Loose.modify (h : Loose W datadir p sl i) (f : Tasklist → Tasklist) :
    Loose W datadir (p.modify i f) sl i :=
  ⟨h.inHand.modify f, h.framed.modify h.apart f⟩

theorem Loose.over (h : Loose W datadir p sl i) (o : UInt8) : Loose W datadir (p.over i o) sl i :=
  h.modify _

theorem Loose.store (h : Loose W datadir p sl i) (b : TaskBase) (sub : TaskSub) :
    Loose W datadir (p.store i b sub) sl i :=
  h.modify _

theorem Loose.create (h : Loose W datadir p sl i) (now : Int) (b : TaskBase) (sub : TaskSub)
    (op : Option Nat) : Loose W datadir (p.create i now b sub op) sl i :=
  h.modify _

theorem Held.take (h : Held W datadir p sl) (hq : Free W q) (hg : e.get q p = some (i, p')) :
    Loose W datadir p' sl i ∧ (q = .home ∨ QueuedOk W datadir q (p'.node i).item) := by
  obtain ⟨hin, hp⟩ := Stored.get h.stored (policy_unheld hq.1) hg
  refine ⟨⟨hin, fun r hr => (h.framed r hr).get (fun q' hd => ?_) hg⟩, hp.imp_right And.right⟩
  refine h.stored.get_notMem (fun he => ?_) hg
  rw [hq.2 (he ▸ hd)] at hr
  cases hr

theorem Held.owned (h : Held W datadir p sl) (hw : sl w = some i) (hk : w.kind ≠ .hand) :
    OwnedBy W datadir p sl i w ∧ HeldOk W datadir w.kind (p.node i).item := by
  obtain ⟨l, hin, hl, hn⟩ := Stored.ofSlot h.stored hw
  exact ⟨⟨⟨l, hl, hin⟩, h.framed⟩, hn hk⟩

theorem Loose.aside (h : Loose W datadir p sl i) (fd : Fd) (hw : sl ⟨fd, .hand⟩ = none) :
    Held W datadir p (update sl ⟨fd, .hand⟩ (some i)) :=
  ⟨(h.inHand.fill hw).stored ⟨.inl ⟨rfl, fun _ hk => by cases hk⟩, fun hk => absurd rfl hk⟩,
    h.framed⟩

theorem Loose.place (h : Loose W datadir p sl i) (hq : Free W q)
    (hlock : W.strict → e.setLock q = true) (hn : QueuedOk W datadir q (p.node i).item) :
    Held W datadir (e.set i q p) sl := by
  refine ⟨(h.inHand.set e q).stored ?_, h.framed.set h.apart hq⟩
  rw [item_set]
  exact policy_land (w := ⟨0, .recv⟩) (.inr rfl) hq.1 hn hlock

theorem OwnedBy.retire (h : OwnedBy W datadir p sl i w) (hq : Free W q)
    (hlock : W.strict → e.setLock q = true) (hn : QueuedOk W datadir q (p.node i).item) :
    Held W datadir (e.set i q p) (update sl w none) := by
  obtain ⟨l, hl, hin⟩ := h.place
  have hset := hin.set e q
  have hland : e.land q ⟨l, some w⟩ = ⟨(e.land q ⟨l, none⟩).link, some w⟩ := by
    unfold Env.land
    split <;> rfl
  have hfree : (e.land q ⟨l, none⟩ : Place) = ⟨(e.land q ⟨l, none⟩).link, none⟩ := by
    unfold Env.land
    split <;> rfl
  rw [hland] at hset
  refine ⟨hset.clear.stored ?_, h.framed.set h.apart hq⟩
  rw [item_set, ← hfree]
  exact policy_land (.inl hl) hq.1 hn hlock

theorem Held.putBack {fd : Fd} (h : Held W datadir p (update sl ⟨fd, .hand⟩ (some i)))
    (hsl : sl ⟨fd, .hand⟩ = none) (hq : Free W q) (hlock : W.strict → e.setLock q = true)
    (f : Tasklist → Tasklist) (hn : QueuedOk W datadir q (f (p.node i)).item) :
    Held W datadir (e.set i q (p.modify i f)) sl := by
  obtain ⟨l, hin, hl, -⟩ := Stored.ofSlot h.stored (update_self _ _ _)
  have hown : OwnedBy W datadir p (update sl ⟨fd, .hand⟩ (some i)) i ⟨fd, .hand⟩ :=
    ⟨⟨l, hl, hin⟩, h.framed⟩
  have hend := (hown.modify f).retire hq hlock (by
    rw [node_modify_self]
    exact hn)
  rw [update_idem, ← hsl, update_eq_self] at hend
  exact hend

theorem OwnedBy.keep (h : OwnedBy W datadir p sl i w)
    (hn : HeldOk W datadir w.kind (p.node i).item) :
    Held W datadir p sl := by
  obtain ⟨l, hl, hin⟩ := h.place
  exact ⟨hin.stored ⟨hl, fun _ => hn⟩, h.framed⟩

theorem OwnedBy.open {fd : Fd} (h : OwnedBy W datadir p sl i ⟨fd, .recv⟩)
    (hw : sl ⟨fd, .file⟩ = none) (hn : HeldOk W datadir .file (p.node i).item) :
    Held W datadir p
      (update (update sl ⟨fd, .recv⟩ none) ⟨fd, .file⟩ (some i)) := by
  obtain ⟨l, hl, hin⟩ := h.place
  have hclear := hin.clear.fill (w := ⟨fd, .file⟩) (by
    rw [update_of_ne (fun he => by cases he)]
    exact hw)
  refine ⟨hclear.stored ⟨?_, fun _ => hn⟩, h.framed⟩
  rcases hl with ⟨rfl, -⟩ | rfl
  · exact .inl ⟨rfl, fun _ hk => by cases hk⟩
  · exact .inr rfl

theorem Loose.drop (h : Loose W datadir p sl i) (hw : W.strict → sl w = none) :
    Loose W datadir p (update sl w none) i := by
  refine ⟨h.inHand.drop fun hne l n hp => ?_, h.framed⟩
  exact policy_release (fun hs => hne (hw hs)) hp

theorem Loose.hold (h : Loose W datadir p sl i) (hk : w.kind ≠ .send) (hw : sl w = none)
    (hn : HeldOk W datadir w.kind (p.node i).item) :
    Held W datadir p (update sl w (some i)) :=
  ⟨(h.inHand.fill hw).stored ⟨.inl ⟨rfl, fun _ => hk⟩, fun _ => hn⟩, h.framed⟩

theorem Loose.assign (h : Loose W datadir p sl i) (hw : sl w = none)
    (hlock : W.strict → w.kind = .send → e.setLock .send = true)
    (hn : HeldOk W datadir w.kind (p.node i).item) :
    Held W datadir (e.set i w.kind.queue p) (update sl w (some i)) := by
  have hset := h.inHand.set e w.kind.queue
  refine ⟨?_, fun r hr => (h.framed r hr).set h.apart (kind_queue_not_delayed _)⟩
  unfold Env.land at hset
  by_cases hl : e.setLock w.kind.queue = true
  · rw [if_pos hl] at hset
    refine (hset.fill hw).stored ⟨.inr rfl, fun _ => ?_⟩
    rw [item_set]
    exact hn
  · rw [if_neg hl] at hset
    refine (hset.fill hw).stored ⟨.inl ⟨rfl, fun hs hk => hl ?_⟩, fun _ => ?_⟩
    · rw [hk]
      exact hlock hs hk
    · rw [item_set]
      exact hn

end Rules

/-! ## 4. Conditions on a step -/

/-- The answers of the system that an action carries. -/
def Act.Uses : Act → Env → Prop
  | .recvMsg _ _ _ e e', x => x = e ∨ x = e'
  | .recvData _ _ e e', x => x = e ∨ x = e'
  | .send _ _ _ e, x => x = e
  | .close _ e, x => x = e
  | .dataCheck envs, x => ∃ k n, x = envs k n
  | .newtask _ _ _ e, x => x = e
  | .syncDirReq _ _ e, x => x = e
  | .sigCheck v, x =>
    (∃ k, x = v.unpark k ∨ x = v.unparkDir k ∨ x = v.delay k ∨ x = v.rsp k) ∨ ∃ k n, x = v.fin k n
  | .syncDir e envs _, x => x = e ∨ ∃ k, x = envs k
  | .timeout e, x => x = e
  | .clean e, x => x = e
  | .possFile e _ _, x => x = e
  | .possDir e _ _, x => x = e
  | _, _ => False

/-- The lock of `pfs_set_task` is obtained, unless it is that of TASK_Q_RECV. -/
def Env.Sets (e : Env) : Prop := ∀ q, q ≠ .recv → e.setLock q = true

/-- No lock fails, and a request finds no task on its connection that it would overwrite. -/
def TasksKept (s : Storage) (a : Act) : Prop :=
  (∀ e, a.Uses e → e.Sets) ∧
    match a with
    | .recvMsg fd h _ _ _ => ∀ p, s.conn fd = some p →
      (h.cmdid = CMD_GET_FILE_REQ → p.recvtask = none ∧ p.sendtask = none) ∧
        (h.cmdid = CMD_PUT_FILE_REQ → p.recvtask = none)
    | _ => True

/-- The data directory exists; a requested name is confined, and so are the names of a new task
    that `check_task` would use unconverted. -/
def NamesConfined (cfg : Cfg) (a : Act) : Prop :=
  (∀ e, a.Uses e → DatadirExists cfg.datadir e.fs ∧ DatadirExists cfg.datadir e.fsAgain) ∧
    match a with
    | .recvMsg _ h base _ _ => h.cmdid = CMD_GET_FILE_REQ → Confined cfg.datadir base.filename
    | .newtask _ _ base _ => base.type ≠ TASK_DELFILE → WaitOk cfg.datadir base
    | .possFile _ file _ => Confined cfg.datadir (file.take 255)
    | _ => True

/-- Records from the network are not older than the task they become, none says that it has timed
    out, and no directory is synchronised. -/
def StampsFresh (s : Storage) (a : Act) : Prop :=
  match a with
  | .recvMsg fd h base e _ =>
    (h.cmdid = CMD_GET_FILE_REQ → e.now ≤ base.starttime) ∧
      (h.cmdid = CMD_GET_FILE_RSP → ∀ p i, s.conn fd = some p → p.recvtask = some i →
        (s.pool.node i).base.filemd5 ≠ base.filemd5 →
          (s.pool.node i).born ≤ base.starttime ∧ base.overstatus ≠ OVER_TIMEOUT) ∧
      (h.cmdid = CMD_PUT_FILE_REQ → base.overstatus ≠ OVER_TIMEOUT)
  | .syncDir _ _ files => files.getD [] = []
  | _ => True

/-- The conditions of those parts. -/
structure StepOk (W : Watch) (cfg : Cfg) (s : Storage) (a : Act) : Prop where
  strict : W.strict → TasksKept s a
  path : W.path → NamesConfined cfg a
  time : W.time → StampsFresh s a

/-- The same for the answers of the system. -/
structure EnvOk (W : Watch) (cfg : Cfg) (e : Env) : Prop where
  strict : W.strict → e.Sets
  path : W.path → DatadirExists cfg.datadir e.fs ∧ DatadirExists cfg.datadir e.fsAgain

theorem StepOk.env {s : Storage} {a : Act} {e : Env} (h : StepOk W cfg s a)
    (he : a.Uses e) : EnvOk W cfg e :=
  ⟨fun hs => (h.strict hs).1 e he, fun hw => (h.path hw).1 e he⟩

theorem EnvOk.lock {e : Env} {q : TaskQ} (h : EnvOk W cfg e)
    (hq : q ≠ .recv) : W.strict → e.setLock q = true :=
  fun hs => h.strict hs q hq

/-! ## 5. The invariant -/

/-- Nothing has happened to the operations the signalling service reports. -/
structure SameMarks (r g : Sig) : Prop where
  peers : List.Forall₂ Quiet r.peers g.peers
  popped : g.popped = r.popped
  owed : g.owed = r.owed
  puts : g.puts = r.puts
  sent : g.sent = r.sent
  expired : g.expired = r.expired

theorem SameMarks.refl (g : Sig) : SameMarks g g :=
  ⟨List.forall₂_same.mpr fun p _ => .refl p, rfl, rfl, rfl, rfl, rfl⟩

theorem SameMarks.pool {r : Sig} (h : SameMarks r g) (p : Pool) :
    SameMarks r { g with pool := p } :=
  ⟨h.peers, h.popped, h.owed, h.puts, h.sent, h.expired⟩

theorem SameMarks.say {r : Sig} (h : SameMarks r g) (fd : Fd) {m : OutMsg} (hm : m.op = none) :
    SameMarks r (g.say fd m) := by
  refine ⟨?_, h.popped, h.owed, h.puts, h.sent, h.expired⟩
  refine List.forall₂_map_right_iff.mpr (h.peers.imp fun p p' hp => ?_)
  split
  · exact hp.say hm
  · exact hp

/-- The operations are those of the earlier state. -/
def Marked (W : Watch) (g : Sig) : Prop := ∀ r, W.ref = some r → SameMarks r g

theorem marked_of_ref (href : W.ref = none) (g : Sig) : Marked W g :=
  fun r hr => by
    cases href.symm.trans hr

/-- What the signalling service keeps, for given tasks of the connections. -/
structure SigInv (W : Watch) (cfg : Cfg) (sl : Slot → Option NodeId) (g : Sig) : Prop where
  tasks : Held W cfg.datadir g.pool sl
  expired : W.time → ∀ x ∈ g.expired, cfg.taskTimeout < x.now - x.born
  marks : Marked W g

theorem SigInv.work {sl : Slot → Option NodeId} {p : Pool}
    (h : SigInv W cfg sl g) (hp : Held W cfg.datadir p sl) : SigInv W cfg sl { g with pool := p } :=
  ⟨hp, h.expired, fun r hr => (h.marks r hr).pool p⟩

def BusyOk (p : Peer) : Prop :=
  p.recvtask ≠ none → p.sockStat = .prepareRecvfile ∨ p.sockStat = .recvfileing

/-- The invariant of the storage but for the place of the nodes. -/
structure Rest (W : Watch) (cfg : Cfg) (s : Storage) : Prop where
  expired : W.time → ∀ x ∈ s.expired, cfg.taskTimeout < x.now - x.born
  marks : Marked W s.toSig
  busy : W.strict → ∀ fd p, s.conn fd = some p → BusyOk p
  ops : W.path → OpsConfined cfg.datadir s.fs
  timers : W.path → ∀ f ∈ s.timers, Confined cfg.datadir f

/-- The invariant: the tasks that are held, and all the rest. -/
structure Inv (W : Watch) (cfg : Cfg) (s : Storage) : Prop extends Rest W cfg s where
  tasks : Held W cfg.datadir s.pool (slots s.conn)

section Inv

variable {W : Watch} {cfg : Cfg} {s t : Storage}

/-- The file operations that lead from `s` to `t` are confined. -/
def Adds (W : Watch) (cfg : Cfg) (s t : Storage) : Prop :=
  W.path → ∃ ops, t.fs = s.fs ++ ops ∧ OpsConfined cfg.datadir ops

theorem adds_none (hf : t.fs = s.fs) : Adds W cfg s t :=
  fun _ => ⟨[], by rw [hf, List.append_nil], .nil⟩

theorem Rest.work (h : Rest W cfg s) (hc : t.conn = s.conn)
    (hx : t.toSig = { s.toSig with pool := t.pool }) (htm : t.timers = s.timers)
    (hops : Adds W cfg s t) : Rest W cfg t where
  expired := by
    rw [hx]
    exact h.expired
  marks := by
    rw [hx]
    exact fun r hr => (h.marks r hr).pool _
  busy := by
    rw [hc]
    exact h.busy
  ops := fun hw => by
    obtain ⟨ops, he, ho⟩ := hops hw
    rw [he]
    exact (h.ops hw).append ho
  timers := by
    rw [htm]
    exact h.timers

variable {fd : Fd} {p : Peer}

theorem Rest.setPeer (h : Rest W cfg s) (hbusy : W.strict → BusyOk p) :
    Rest W cfg (s.setPeer fd p) :=
  { h with
    busy := by
      intro hs g r hr
      change update s.conn fd (some p) g = some r at hr
      by_cases hg : g = fd
      · subst hg
        rw [update_self] at hr
        cases hr
        exact hbusy hs
      · rw [update_of_ne hg] at hr
        exact h.busy hs g r hr }

theorem Rest.peer (h : Rest W cfg s) (hc : t.conn = update s.conn fd (some p))
    (hx : t.toSig = { s.toSig with pool := t.pool }) (htm : t.timers = s.timers)
    (hbusy : W.strict → BusyOk p) (hops : Adds W cfg s t) : Rest W cfg t :=
  Rest.work (s := s.setPeer fd p) (h.setPeer hbusy) hc hx htm hops

theorem Rest.timer (h : Rest W cfg s) {rm : List Path} (hrm : ∀ f ∈ rm, Confined cfg.datadir f) :
    Rest W cfg { s with timers := s.timers ++ rm } :=
  { h with
    timers := fun hw f hf => (List.mem_append.mp hf).elim (h.timers hw f) (hrm f) }

theorem Inv.peer (h : Inv W cfg s) (hc : t.conn = update s.conn fd (some p))
    (hx : t.toSig = { s.toSig with pool := t.pool }) (htm : t.timers = s.timers)
    (hp : Held W cfg.datadir t.pool (slots (update s.conn fd (some p))))
    (hbusy : W.strict → BusyOk p) (hops : Adds W cfg s t) : Inv W cfg t :=
  ⟨h.toRest.peer hc hx htm hbusy hops, hc ▸ hp⟩

theorem Inv.sig (h : Inv W cfg s) : SigInv W cfg (slots s.conn) s.toSig :=
  ⟨h.tasks, h.expired, h.marks⟩

theorem Inv.ofSig (h : Inv W cfg s) {g : Sig} (hg : SigInv W cfg (slots s.conn) g) :
    Inv W cfg { s with toSig := g } :=
  ⟨{ h.toRest with expired := hg.expired, marks := hg.marks }, hg.tasks⟩

end Inv

end Pfs
