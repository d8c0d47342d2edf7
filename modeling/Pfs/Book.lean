/-
  What the signalling service is for: every finished source task is reported to every
  member of the domain, and to each of them in order.

  A book keeps, for each report, where it stands: waiting, parked, in the buffer of a connection,
  sent, or expired. The moves are those that the service makes; a move whose queue lock times out
  loses the report (`Kept`). No task nodes, no bytes.

  Main results: `Turn.accounted`, `Turn.ordered`.
-/
import Mathlib.Logic.Relation
import Pfs.Storage

namespace Pfs

open Relation List

/-! ## 1. The book -/

/-- An operation, if any, and the member it is to be reported to. -/
abbrev Entry := Option Nat × UInt32

structure Book where
  wait : List Entry
  parked : List Entry
  peers : List SigPeer
  popped : Nat
  owed : List (Nat × UInt32)
  puts : List (Nat × UInt32)
  sent : List (Nat × UInt32)
  expired : List Expired

/-- The same connection, perhaps with more messages in its buffer, which report no operation. -/
def Quiet (p p' : SigPeer) : Prop :=
  p'.fd = p.fd ∧ p'.ip = p.ip ∧ ∃ ms, p'.out = p.out ++ ms ∧ ∀ m ∈ ms, m.op = none

theorem Quiet.refl (p : SigPeer) : Quiet p p :=
  ⟨rfl, rfl, [], (append_nil _).symm, fun _ hm => by cases hm⟩

theorem Quiet.say {p p' : SigPeer} (h : Quiet p p') {m : OutMsg} (hm : m.op = none) :
    Quiet p { p' with out := p'.out ++ [m] } := by
  obtain ⟨hfd, hip, ms, hout, hms⟩ := h
  refine ⟨hfd, hip, ms ++ [m], ?_, fun x hx => ?_⟩
  · show p'.out ++ [m] = _
    rw [hout, append_assoc]
  · rcases mem_append.mp hx with hx | hx
    · exact hms x hx
    · rw [mem_singleton.mp hx]
      exact hm

/-- What becomes of a report that is moved to a queue: it is there, or lost with the lock. -/
def Kept (safe : Prop) (x : Entry) (kept : List Entry) : Prop := kept = [x] ∨ ¬ safe ∧ kept = []

namespace Book

def Offline (b : Book) (ip : UInt32) : Prop := ip ∉ b.peers.map (·.ip)

def put (b : Book) (peer : SigPeer) (m : OutMsg) : Book :=
  { b with
    peers := b.peers.map fun p => if p.fd = peer.fd then { p with out := p.out ++ [m] } else p
    puts := b.puts ++ m.op.toList.map fun k => (k, peer.ip) }

def owe (b : Book) (k : Nat) (ip : UInt32) : Book := { b with owed := b.owed ++ [(k, ip)] }

def await (b : Book) (xs : List Entry) : Book := { b with wait := b.wait ++ xs }

/-! ## 2. Moves -/

structure Quiets (b b' : Book) : Prop where
  peers : List.Forall₂ Quiet b.peers b'.peers
  rest : b' = { b with peers := b'.peers }

/-- The first parked report is made to wait again. -/
inductive Unparks (safe : Prop) : Book → Book → Prop where
  | move {b : Book} {x : Entry} {xs kept : List Entry} (hx : b.parked = x :: xs)
      (hk : Kept safe x kept) : Unparks safe b ({ b with parked := xs }.await kept)

/-- The first waiting report is parked, or put on a connection to its member. -/
inductive Delays (safe : Prop) : Book → Book → Prop where
  | park {b : Book} {x : Entry} {xs kept : List Entry} (hx : b.wait = x :: xs)
      (hoff : b.Offline x.2) (hk : Kept safe x kept) :
      Delays safe b { b with wait := xs, parked := b.parked ++ kept }
  | put {b : Book} {x : Entry} {xs : List Entry} {peer : SigPeer} {m : OutMsg}
      (hx : b.wait = x :: xs) (hpeer : peer ∈ b.peers) (hip : peer.ip = x.2) (hm : m.op = x.1) :
      Delays safe b ({ b with wait := xs }.put peer m)
  | quiet {b b' : Book} (h : b.Quiets b') : Delays safe b b'

/-- The members, one after the other, are owed operation `k`; each is served at once or later. -/
inductive Serves (safe : Prop) (k : Nat) : List UInt32 → Book → Book → Prop where
  | done (b : Book) : Serves safe k [] b b
  | delay {b b' : Book} {ip : UInt32} {ips : List UInt32} {kept : List Entry} (hoff : b.Offline ip)
      (hk : Kept safe (some k, ip) kept)
      (h : Serves safe k ips ((b.owe k ip).await kept) b') :
      Serves safe k (ip :: ips) b b'
  | put {b b' : Book} {ip : UInt32} {ips : List UInt32} {peer : SigPeer} {m : OutMsg}
      (hpeer : peer ∈ b.peers) (hip : peer.ip = ip) (hm : m.op = some k)
      (h : Serves safe k ips ((b.owe k ip).put peer m) b') : Serves safe k (ip :: ips) b b'

/-- A finished task: a source task gets the next number and is reported to the members `ips`. -/
inductive Finishes (safe : Prop) (ips : List UInt32) : Book → Book → Prop where
  | quiet {b b' : Book} (h : b.Quiets b') : Finishes safe ips b b'
  | report {b b' : Book} (h : Serves safe b.popped ips { b with popped := b.popped + 1 } b') :
      Finishes safe ips b b'

/-- A task expires. -/
inductive Expires : Book → Book → Prop where
  | wait {b : Book} {x : Expired} {xs ys : List Entry} (hx : b.wait = xs ++ (x.op, x.ip) :: ys) :
      Expires b { b with wait := xs ++ ys, expired := b.expired ++ [x] }
  | parked {b : Book} {x : Expired} {xs ys : List Entry}
      (hx : b.parked = xs ++ (x.op, x.ip) :: ys) :
      Expires b { b with parked := xs ++ ys, expired := b.expired ++ [x] }
  | other (b : Book) (x : Expired) : Expires b { b with expired := b.expired ++ [x] }

/-- No member has reports in both queues. -/
def Apart (b : Book) : Prop := ∀ x ∈ b.wait, ∀ y ∈ b.parked, x.2 ≠ y.2

/-- One step of the storage. `safe` says that nothing is to be lost, `whole` that a pass is to
    empty the queues. -/
inductive Turn (ips : List UInt32) (safe whole : Prop) : Book → Book → Prop where
  | quiet {b b' : Book} (h : b.Quiets b') : Turn ips safe whole b b'
  | connect {b : Book} {p : SigPeer} (hout : p.out = []) :
      Turn ips safe whole b { b with peers := p :: b.peers }
  | close {b : Book} {fd : Fd}
      (hsafe : safe → ∀ p ∈ b.peers, p.fd = fd → ∀ m ∈ p.out, m.op = none) :
      Turn ips safe whole b { b with peers := b.peers.filter fun p => p.fd != fd }
  | flush {b : Book} {peers : List SigPeer} {sent : List (Nat × UInt32)}
      (hips : ∀ p' ∈ peers, ∃ p ∈ b.peers, p'.ip = p.ip)
      (hmsgs : ∀ p ∈ b.peers, ∀ m ∈ p.out, ∀ k, m.op = some k →
        (k, p.ip) ∈ sent ∨ ∃ p' ∈ peers, p'.ip = p.ip ∧ ∃ m' ∈ p'.out, m'.op = some k) :
      Turn ips safe whole b { b with peers := peers, sent := b.sent ++ sent }
  | pass {b b₁ b₂ b₃ b₄ : Book} (hstart : whole → b.Apart)
      (hunpark : ReflTransGen (Unparks safe) b b₁) (hparked : whole → b₁.parked = [])
      (hdelay : ReflTransGen (Delays safe) b₁ b₂) (hwait : whole → b₂.wait = [])
      (hfin : ReflTransGen (Finishes safe ips) b₂ b₃) (hend : b₃.Quiets b₄) :
      Turn ips safe whole b b₄
  | expire {b b' : Book} (h : ReflTransGen Expires b b') : Turn ips safe whole b b'

theorem inv_of_moves {R : Book → Book → Prop} {I : Book → Prop} {b b' : Book}
    (hR : ∀ b b', I b → R b b' → I b') (h : ReflTransGen R b b') (hb : I b) : I b' := by
  induction h with
  | refl => exact hb
  | tail _ hmove ih => exact hR _ _ ih hmove

/-! ## 3. Nothing is lost -/

/-- A report to the member: sent, in the buffer of a connection to it, delayed, or expired. -/
def Carried (b : Book) (k : Nat) (ip : UInt32) : Prop :=
  (k, ip) ∈ b.sent ∨ (∃ p ∈ b.peers, p.ip = ip ∧ ∃ m ∈ p.out, m.op = some k) ∨
    (some k, ip) ∈ b.wait ∨ (some k, ip) ∈ b.parked ∨ ∃ x ∈ b.expired, x.op = some k ∧ x.ip = ip

def Carries (b b' : Book) : Prop := ∀ k ip, b.Carried k ip → b'.Carried k ip

/-- The same connection with at least the same messages. -/
def Grows (p p' : SigPeer) : Prop := p'.ip = p.ip ∧ p.out ⊆ p'.out

section Carried

variable {b b' : Book} {safe whole : Prop} {ips : List UInt32} {k : Nat}

theorem forall₂_put (peers : List SigPeer) (fd : Fd) (m : OutMsg) : List.Forall₂ Grows peers
    (peers.map fun p => if p.fd = fd then { p with out := p.out ++ [m] } else p) := by
  refine forall₂_map_right_iff.mpr (forall₂_same.mpr fun p _ => ?_)
  split
  · exact ⟨rfl, subset_append_left _ _⟩
  · exact ⟨rfl, List.Subset.refl _⟩

theorem grows_of_quiet {p p' : SigPeer} (h : Quiet p p') : Grows p p' := by
  obtain ⟨-, hip, ms, hout, -⟩ := h
  exact ⟨hip, hout ▸ subset_append_left _ _⟩

theorem buffered_of_grows {ps ps' : List SigPeer} (h : List.Forall₂ Grows ps ps') {p : SigPeer}
    {m : OutMsg} (hp : p ∈ ps) (hm : m ∈ p.out) : ∃ p' ∈ ps', p'.ip = p.ip ∧ m ∈ p'.out := by
  induction h with
  | nil => cases hp
  | cons hgrow _ ih =>
    rcases mem_cons.mp hp with rfl | hp
    · exact ⟨_, mem_cons_self, hgrow.1, hgrow.2 hm⟩
    · obtain ⟨p', hp', hrest⟩ := ih hp
      exact ⟨p', mem_cons_of_mem _ hp', hrest⟩

/-- To show that what is carried stays so: connections only grow, and every delayed report is
    still carried. -/
theorem carries_of_grows (hpeers : List.Forall₂ Grows b.peers b'.peers) (hsent : b.sent ⊆ b'.sent)
    (hexpired : b.expired ⊆ b'.expired)
    (hwait : ∀ k ip, (some k, ip) ∈ b.wait → b'.Carried k ip)
    (hparked : ∀ k ip, (some k, ip) ∈ b.parked → b'.Carried k ip) : b.Carries b' := by
  rintro k ip (h | ⟨p, hp, rfl, m, hm, hop⟩ | h | h | ⟨x, hx, hop⟩)
  · exact .inl (hsent h)
  · obtain ⟨p', hp', hip, hm'⟩ := buffered_of_grows hpeers hp hm
    exact .inr (.inl ⟨p', hp', hip, m, hm', hop⟩)
  · exact hwait k ip h
  · exact hparked k ip h
  · exact .inr (.inr (.inr (.inr ⟨x, hexpired hx, hop⟩)))

theorem carries_of_peers (hpeers : b'.peers = b.peers) (hsent : b'.sent = b.sent)
    (hexpired : b.expired ⊆ b'.expired)
    (hwait : ∀ k ip, (some k, ip) ∈ b.wait → b'.Carried k ip)
    (hparked : ∀ k ip, (some k, ip) ∈ b.parked → b'.Carried k ip) : b.Carries b' :=
  carries_of_grows (hpeers ▸ forall₂_same.mpr fun _ _ => ⟨rfl, List.Subset.refl _⟩)
    (hsent ▸ List.Subset.refl _) hexpired hwait hparked

theorem carried_wait (h : (some k, ip) ∈ b.wait) : b.Carried k ip := .inr (.inr (.inl h))

theorem carried_parked (h : (some k, ip) ∈ b.parked) : b.Carried k ip := .inr (.inr (.inr (.inl h)))

theorem carried_expired {x : Expired} (h : x ∈ b.expired) (hop : x.op = some k) :
    b.Carried k x.ip :=
  .inr (.inr (.inr (.inr ⟨x, h, hop, rfl⟩)))

theorem carried_put {peer : SigPeer} {m : OutMsg} (hpeer : peer ∈ b.peers) (hm : m.op = some k) :
    (b.put peer m).Carried k peer.ip := by
  refine .inr (.inl ⟨{ peer with out := peer.out ++ [m] }, ?_, rfl, m, by simp, hm⟩)
  exact mem_map.mpr ⟨peer, hpeer, if_pos rfl⟩

theorem carries_put (b : Book) (peer : SigPeer) (m : OutMsg) : b.Carries (b.put peer m) :=
  carries_of_grows (forall₂_put _ _ _) (List.Subset.refl _) (List.Subset.refl _)
    (fun _ _ h => carried_wait h) fun _ _ h => carried_parked h

theorem carries_await (b : Book) (xs : List Entry) : b.Carries (b.await xs) :=
  carries_of_peers rfl rfl (List.Subset.refl _) (fun _ _ h => carried_wait (mem_append_left _ h))
    fun _ _ h => carried_parked h

theorem Quiets.carries (h : b.Quiets b') : b.Carries b' := by
  rw [h.rest]
  exact carries_of_grows (h.peers.imp fun _ _ => grows_of_quiet) (List.Subset.refl _)
    (List.Subset.refl _) (fun _ _ h => carried_wait h) fun _ _ h => carried_parked h

theorem kept_eq {x : Entry} {kept : List Entry} (h : Kept safe x kept) (hs : safe) : kept = [x] :=
  h.resolve_right fun hn => hn.1 hs

theorem Unparks.carries (hs : safe) (h : Unparks safe b b') : b.Carries b' := by
  obtain ⟨hx, hk⟩ := h
  rename_i x xs kept
  refine carries_of_peers rfl rfl (List.Subset.refl _) (fun k ip hw => ?_) fun k ip hp => ?_
  · exact carried_wait (mem_append_left _ hw)
  · rw [hx] at hp
    rcases mem_cons.mp hp with rfl | hp
    · exact carried_wait (mem_append_right _ (kept_eq hk hs ▸ mem_singleton.mpr rfl))
    · exact carried_parked hp

theorem Delays.carries (hs : safe) (h : Delays safe b b') : b.Carries b' := by
  cases h with
  | park hx hoff hk =>
    refine carries_of_peers rfl rfl (List.Subset.refl _) (fun k ip hw => ?_) fun k ip hp => ?_
    · rw [hx] at hw
      rcases mem_cons.mp hw with rfl | hw
      · exact carried_parked (mem_append_right _ (kept_eq hk hs ▸ mem_singleton.mpr rfl))
      · exact carried_wait hw
    · exact carried_parked (mem_append_left _ hp)
  | @put x xs peer m hx hpeer hip hm =>
    refine carries_of_grows (forall₂_put _ _ _) (List.Subset.refl _) (List.Subset.refl _)
      (fun k ip hw => ?_) fun k ip hp => carried_parked hp
    rw [hx] at hw
    rcases mem_cons.mp hw with rfl | hw
    · rw [← show peer.ip = ip from hip]
      exact carried_put hpeer hm
    · exact carried_wait hw
  | quiet h => exact h.carries

theorem mem_of_expires {x y : Entry} {xs ys : List Entry} (h : y ∈ xs ++ x :: ys) :
    y ∈ xs ++ ys ∨ y = x := by
  simp only [mem_append, mem_cons] at h ⊢
  tauto

theorem Expires.carries (h : Expires b b') : b.Carries b' := by
  cases h with
  | @wait x xs ys hx =>
    refine carries_of_peers rfl rfl (subset_append_left _ _) (fun k ip hw => ?_)
      fun k ip hp => carried_parked hp
    rcases mem_of_expires (hx ▸ hw) with hw | he
    · exact carried_wait hw
    · obtain ⟨hop, rfl⟩ := Prod.mk.inj he
      exact carried_expired (mem_append_right _ (mem_singleton.mpr rfl)) hop.symm
  | @parked x xs ys hx =>
    refine carries_of_peers rfl rfl (subset_append_left _ _) (fun k ip hw => carried_wait hw)
      fun k ip hp => ?_
    rcases mem_of_expires (hx ▸ hp) with hp | he
    · exact carried_parked hp
    · obtain ⟨hop, rfl⟩ := Prod.mk.inj he
      exact carried_expired (mem_append_right _ (mem_singleton.mpr rfl)) hop.symm
  | other x =>
    exact carries_of_peers rfl rfl (subset_append_left _ _) (fun k ip hw => carried_wait hw)
      fun k ip hp => carried_parked hp

/-- The members that have been served are owed the operation, and the report is carried. -/
structure Accounted (ips : List UInt32) (b : Book) : Prop where
  owed : ∀ k < b.popped, ∀ ip ∈ ips, (k, ip) ∈ b.owed
  carried : ∀ x ∈ b.owed, b.Carried x.1 x.2

theorem Accounted.step (h : Accounted ips b) (hpopped : b'.popped = b.popped)
    (howed : b'.owed = b.owed) (hc : b.Carries b') : Accounted ips b' where
  owed := by
    rw [hpopped, howed]
    exact h.owed
  carried := by
    rw [howed]
    exact fun x hx => hc _ _ (h.carried x hx)

theorem Serves.carries (h : Serves safe k ips b b') : b.Carries b' := by
  induction h with
  | done b => exact fun _ _ h => h
  | delay hoff hk _ ih =>
    exact fun k ip hc => ih k ip (carries_await _ _ k ip hc)
  | put hpeer hip hm _ ih =>
    exact fun k ip hc => ih k ip (carries_put _ _ _ k ip hc)

theorem Serves.accounts (hs : safe) (h : Serves safe k ips b b') :
    b'.popped = b.popped ∧ (∀ x, x ∈ b'.owed ↔ x ∈ b.owed ∨ ∃ ip ∈ ips, x = (k, ip)) ∧
      ∀ ip ∈ ips, b'.Carried k ip := by
  induction h with
  | done b => simp
  | @delay b b' ip ips kept hoff hk hrest ih =>
    obtain ⟨hpopped, howed, hips⟩ := ih
    refine ⟨hpopped, fun x => ?_, fun ip' hip' => ?_⟩
    · rw [howed]
      show x ∈ b.owed ++ [(k, ip)] ∨ _ ↔ _
      simp [or_assoc]
    · rcases mem_cons.mp hip' with rfl | hip'
      · refine hrest.carries _ _ (carried_wait ?_)
        exact mem_append_right _ (kept_eq hk hs ▸ mem_singleton.mpr rfl)
      · exact hips ip' hip'
  | @put b b' ip ips peer m hpeer hip hm hrest ih =>
    obtain ⟨hpopped, howed, hips⟩ := ih
    refine ⟨hpopped, fun x => ?_, fun ip' hip' => ?_⟩
    · rw [howed]
      show x ∈ b.owed ++ [(k, ip)] ∨ _ ↔ _
      simp [or_assoc]
    · rcases mem_cons.mp hip' with rfl | hip'
      · exact hrest.carries _ _ (hip ▸ carried_put (b := b.owe k ip') hpeer hm)
      · exact hips ip' hip'

theorem Quiets.accounted (ha : Accounted ips b) (h : b.Quiets b') : Accounted ips b' :=
  ha.step (by rw [h.rest]) (by rw [h.rest]) h.carries

theorem Unparks.accounted (hs : safe) (ha : Accounted ips b) (h : Unparks safe b b') :
    Accounted ips b' := by
  have hc := h.carries hs
  cases h
  exact ha.step rfl rfl hc

theorem Delays.accounted (hs : safe) (ha : Accounted ips b) (h : Delays safe b b') :
    Accounted ips b' := by
  have hc := h.carries hs
  cases h with
  | quiet h => exact h.accounted ha
  | _ => exact ha.step rfl rfl hc

theorem Expires.accounted (ha : Accounted ips b) (h : Expires b b') : Accounted ips b' := by
  have hc := h.carries
  cases h <;> exact ha.step rfl rfl hc

theorem Finishes.accounted (hs : safe) (ha : Accounted ips b) (h : Finishes safe ips b b') :
    Accounted ips b' := by
  cases h with
  | quiet h => exact h.accounted ha
  | report h =>
    obtain ⟨hpopped, howed, hips⟩ := h.accounts hs
    refine ⟨fun k hk ip hip => ?_, fun x hx => ?_⟩
    · rw [hpopped] at hk
      rw [howed]
      rcases Nat.lt_succ_iff_lt_or_eq.mp hk with hk | rfl
      · exact .inl (ha.owed k hk ip hip)
      · exact .inr ⟨ip, hip, rfl⟩
    · rcases (howed x).mp hx with hx | ⟨ip, hip, rfl⟩
      · exact h.carries _ _ (ha.carried x hx)
      · exact hips ip hip

/-- **Nothing is lost.** -/
theorem Turn.accounted (hs : safe) (ha : Accounted ips b) (h : Turn ips safe whole b b') :
    Accounted ips b' := by
  cases h with
  | quiet h => exact h.accounted ha
  | connect hout =>
    refine ha.step rfl rfl ?_
    rintro k ip (h | ⟨p, hp, h⟩ | h)
    · exact .inl h
    · exact .inr (.inl ⟨p, mem_cons_of_mem _ hp, h⟩)
    · exact .inr (.inr h)
  | @close fd hsafe =>
    refine ha.step rfl rfl ?_
    rintro k ip (h | ⟨p, hp, hip, m, hm, hop⟩ | h)
    · exact .inl h
    · refine .inr (.inl ⟨p, mem_filter.mpr ⟨hp, ?_⟩, hip, m, hm, hop⟩)
      have hfd : p.fd ≠ fd := by
        intro hfd
        rw [hsafe hs p hp hfd m hm] at hop
        cases hop
      simpa using hfd
    · exact .inr (.inr h)
  | flush hips hmsgs =>
    refine ha.step rfl rfl ?_
    rintro k ip (h | ⟨p, hp, rfl, m, hm, hop⟩ | h)
    · exact .inl (mem_append_left _ h)
    · rcases hmsgs p hp m hm k hop with h | h
      · exact .inl (mem_append_right _ h)
      · exact .inr (.inl h)
    · exact .inr (.inr h)
  | pass hstart hunpark hparked hdelay hwait hfin hend =>
    have h₁ := inv_of_moves (fun _ _ hb hm => Unparks.accounted hs hb hm) hunpark ha
    have h₂ := inv_of_moves (fun _ _ hb hm => Delays.accounted hs hb hm) hdelay h₁
    have h₃ := inv_of_moves (fun _ _ hb hm => Finishes.accounted hs hb hm) hfin h₂
    exact hend.accounted h₃
  | expire h => exact inv_of_moves (fun _ _ hb hm => Expires.accounted hb hm) h ha

end Carried

/-! ## 4. Order -/

/-- Two reports to one member are in the order of their operations. -/
def Before (x y : Entry) : Prop := x.2 = y.2 → ∀ i j, x.1 = some i → y.1 = some j → i ≤ j

def said (b : Book) : List Entry := b.puts.map fun x => (some x.1, x.2)

def Numbered (b : Book) : Prop :=
  ∀ x, x ∈ b.said ∨ x ∈ b.wait ∨ x ∈ b.parked → ∀ k, x.1 = some k → k < b.popped

/-- What has been put and what waits is in order, and so is what has been put and what is
    parked. -/
structure Ordered (b : Book) : Prop where
  wait : (b.said ++ b.wait).Pairwise Before
  parked : (b.said ++ b.parked).Pairwise Before
  numbered : b.Numbered

/-- While the parked reports are made to wait: they come after those that wait. -/
structure Unparking (b : Book) : Prop where
  line : (b.said ++ (b.wait ++ b.parked)).Pairwise Before
  numbered : b.Numbered

/-- While the waiting reports are looked at: what is parked comes before them, and its members have
    no connection. -/
structure Delaying (b : Book) : Prop where
  line : (b.said ++ (b.parked ++ b.wait)).Pairwise Before
  offline : ∀ x ∈ b.parked, b.Offline x.2
  numbered : b.Numbered

/-- While finished tasks are reported: no member of a delayed report has a connection. -/
structure Finishing (b : Book) : Prop extends Ordered b where
  offline : ∀ x, x ∈ b.wait ∨ x ∈ b.parked → b.Offline x.2

section Order

variable {b b' : Book} {safe whole : Prop} {ips : List UInt32} {k : Nat}

theorem Numbered.mono (h : b.Numbered) (hp : b.popped ≤ b'.popped)
    (hs : ∀ x, x ∈ b'.said ∨ x ∈ b'.wait ∨ x ∈ b'.parked → x ∈ b.said ∨ x ∈ b.wait ∨ x ∈ b.parked) :
    b'.Numbered :=
  fun x hx k hk => Nat.lt_of_lt_of_le (h x (hs x hx) k hk) hp

theorem Ordered.mono (h : Ordered b) (hs : b'.puts = b.puts) (hp : b'.popped = b.popped)
    (hw : b'.wait.Sublist b.wait) (hd : b'.parked.Sublist b.parked) : Ordered b' := by
  have hsaid : b'.said = b.said := by rw [said, said, hs]
  refine ⟨?_, ?_, h.numbered.mono (Nat.le_of_eq hp.symm) fun x hx => ?_⟩
  · exact h.wait.sublist (hsaid ▸ hw.append_left _)
  · exact h.parked.sublist (hsaid ▸ hd.append_left _)
  · rw [hsaid] at hx
    exact hx.imp_right fun hx => hx.imp (fun hx => hw.subset hx) fun hx => hd.subset hx

variable {ip : UInt32} {x : Entry}

theorem Offline.grows (h : List.Forall₂ Grows b.peers b'.peers) (hoff : b.Offline ip) :
    b'.Offline ip := by
  have hips : List.Forall₂ (fun p p' : SigPeer => p.ip = p'.ip) b.peers b'.peers :=
    h.imp fun _ _ hgrow => hgrow.1.symm
  have hmap : b.peers.map (·.ip) = b'.peers.map (·.ip) := by
    rw [← forall₂_eq_eq_eq, forall₂_map_left_iff, forall₂_map_right_iff]
    exact hips
  rw [Offline, ← hmap]
  exact hoff

theorem online_ne {peer : SigPeer} (hpeer : peer ∈ b.peers) (hoff : b.Offline ip) :
    peer.ip ≠ ip := by
  rintro rfl
  exact hoff (mem_map_of_mem hpeer)

theorem kept_sublist {kept : List Entry} (h : Kept safe x kept) : kept.Sublist [x] := by
  rcases h with rfl | ⟨-, rfl⟩
  · exact List.Sublist.refl _
  · exact nil_sublist _

theorem pairwise_pull {xs ys zs : List Entry} (h : (xs ++ (ys ++ x :: zs)).Pairwise Before)
    (hx : ∀ y ∈ ys, Before x y) : ((xs ++ [x]) ++ (ys ++ zs)).Pairwise Before := by
  simp only [pairwise_append, pairwise_cons, mem_append, mem_cons] at h ⊢
  grind

theorem said_put (b : Book) (peer : SigPeer) (m : OutMsg) :
    (b.put peer m).said = b.said ++ m.op.toList.map fun k => (some k, peer.ip) := by
  simp [said, put]

theorem before_of_ne {y : Entry} (h : x.2 ≠ y.2) : Before x y := fun he => absurd he h

theorem Quiets.ordered (ho : Ordered b) (h : b.Quiets b') : Ordered b' := by
  rw [h.rest]
  exact ho.mono rfl rfl (List.Sublist.refl _) (List.Sublist.refl _)

theorem Quiets.offline (h : b.Quiets b') (hoff : b.Offline ip) : b'.Offline ip :=
  hoff.grows (h.peers.imp fun _ _ => grows_of_quiet)

theorem Unparks.unparking (hu : Unparking b) (h : Unparks safe b b') : Unparking b' := by
  obtain ⟨hx, hk⟩ := h
  rename_i x xs kept
  have hsub : ((b.wait ++ kept) ++ xs).Sublist (b.wait ++ b.parked) := by
    rw [hx, append_assoc]
    exact ((kept_sublist hk).append_right xs).append_left _
  refine ⟨hu.line.sublist (hsub.append_left _), hu.numbered.mono (Nat.le_refl _) fun y hy => ?_⟩
  have hmem : y ∈ b.wait ++ kept ∨ y ∈ xs → y ∈ b.wait ∨ y ∈ b.parked := fun hy =>
    mem_append.mp (hsub.subset (mem_append.mpr hy))
  exact hy.imp_right hmem

theorem Unparks.length_le {n : Nat} (hn : b.wait.length + b.parked.length ≤ n)
    (h : Unparks safe b b') :
    b'.wait.length + b'.parked.length ≤ n := by
  obtain ⟨hx, hk⟩ := h
  have hone := (kept_sublist hk).length_le
  rw [hx] at hn
  simp only [await, length_append, length_cons, length_nil] at hn hone ⊢
  omega

theorem Delays.delaying (hd : Delaying b) (h : Delays safe b b') : Delaying b' := by
  cases h with
  | @park x xs kept hx hoff hk =>
    have hsub : ((b.parked ++ kept) ++ xs).Sublist (b.parked ++ b.wait) := by
      rw [hx, append_assoc]
      exact ((kept_sublist hk).append_right xs).append_left _
    refine ⟨hd.line.sublist (hsub.append_left _), fun y hy => ?_,
      hd.numbered.mono (Nat.le_refl _) fun y hy => ?_⟩
    · rcases mem_append.mp hy with hy | hy
      · exact hd.offline y hy
      · rw [mem_singleton.mp ((kept_sublist hk).subset hy)]
        exact hoff
    · have hmem : y ∈ xs ∨ y ∈ b.parked ++ kept → y ∈ b.wait ∨ y ∈ b.parked := fun hy =>
        (mem_append.mp (hsub.subset (mem_append.mpr hy.symm))).symm
      exact hy.imp_right hmem
  | @put x xs peer m hx hpeer hip hm =>
    have hoff (ip : UInt32) (h : b.Offline ip) : ({ b with wait := xs }.put peer m).Offline ip :=
      h.grows (forall₂_put _ _ _)
    have hpull : ((b.said ++ [x]) ++ (b.parked ++ xs)).Pairwise Before := by
      refine pairwise_pull (hx ▸ hd.line) fun y hy => before_of_ne ?_
      rw [← hip]
      exact online_ne hpeer (hd.offline y hy)
    have hsay : (m.op.toList.map fun k => ((some k, peer.ip) : Entry)).Sublist [x] := by
      rw [hm, hip]
      rcases x with ⟨_ | k, ip⟩
      · exact nil_sublist _
      · exact List.Sublist.refl _
    refine ⟨?_, fun y hy => hoff _ (hd.offline y hy), fun y hy => ?_⟩
    · rw [said_put]
      exact hpull.sublist ((hsay.append_left _).append_right _)
    · rw [said_put] at hy
      refine hd.numbered y ?_
      rw [hx]
      rcases hy with hy | hy | hy
      · rcases mem_append.mp hy with hy | hy
        · exact .inl hy
        · exact .inr (.inl (mem_cons.mpr (.inl (mem_singleton.mp (hsay.subset hy)))))
      · exact .inr (.inl (mem_cons_of_mem _ hy))
      · exact .inr (.inr hy)
  | quiet h =>
    have hrest := h.rest
    refine ⟨?_, fun y hy => h.offline (hd.offline y ?_), ?_⟩
    · rw [hrest]
      exact hd.line
    · rw [hrest] at hy
      exact hy
    · rw [hrest]
      exact hd.numbered

theorem Finishing.delay (hf : Finishing b) (hp : b.popped = k + 1) {ip : UInt32}
    (hoff : b.Offline ip) {kept : List Entry} (hk : kept.Sublist [(some k, ip)]) :
    Finishing ((b.owe k ip).await kept) := by
  have hlast : ∀ y ∈ b.said ++ b.wait, Before y (some k, ip) := by
    rintro y hy - i j hi hj
    cases hj
    have hlt := hf.numbered y ((mem_append.mp hy).imp_right .inl) i hi
    omega
  have hkept : ∀ y ∈ kept, y = (some k, ip) := fun y hy => mem_singleton.mp (hk.subset hy)
  refine ⟨⟨?_, hf.parked, ?_⟩, ?_⟩
  · show (b.said ++ (b.wait ++ kept)).Pairwise Before
    rw [← append_assoc]
    refine pairwise_append.mpr ⟨hf.wait, (pairwise_singleton _ _).sublist hk, ?_⟩
    intro y hy z hz
    rw [hkept z hz]
    exact hlast y hy
  · intro y hy i hi
    show i < b.popped
    have hy : y ∈ b.said ∨ y ∈ b.wait ++ kept ∨ y ∈ b.parked := hy
    rw [mem_append, or_assoc] at hy
    rcases hy with hy | hy | hy | hy
    · exact hf.numbered y (.inl hy) i hi
    · exact hf.numbered y (.inr (.inl hy)) i hi
    · rw [hkept y hy] at hi
      cases hi
      omega
    · exact hf.numbered y (.inr (.inr hy)) i hi
  · intro y hy
    have hy : y ∈ b.wait ++ kept ∨ y ∈ b.parked := hy
    rw [mem_append, or_assoc] at hy
    rcases hy with hy | hy | hy
    · exact hf.offline y (.inl hy)
    · rw [hkept y hy]
      exact hoff
    · exact hf.offline y (.inr hy)

theorem Finishing.put (hf : Finishing b) (hp : b.popped = k + 1) {peer : SigPeer} {m : OutMsg}
    (hpeer : peer ∈ b.peers) (hm : m.op = some k) :
    Finishing ((b.owe k peer.ip).put peer m) := by
  have hsaid : ((b.owe k peer.ip).put peer m).said = b.said ++ [(some k, peer.ip)] := by
    rw [said_put, hm]
    rfl
  have hlast : (b.said ++ [(some k, peer.ip)]).Pairwise Before := by
    refine pairwise_append.mpr ⟨(pairwise_append.mp hf.wait).1, pairwise_singleton _ _, ?_⟩
    rintro y hy z hz - i j hi hj
    rw [mem_singleton.mp hz] at hj
    cases hj
    have hlt := hf.numbered y (.inl hy) i hi
    omega
  -- the member has a connection, so nothing for it is delayed
  have hline (xs : List Entry) (hxs : (b.said ++ xs).Pairwise Before)
      (hoff : ∀ y ∈ xs, b.Offline y.2) :
      ((b.said ++ [(some k, peer.ip)]) ++ xs).Pairwise Before := by
    have hparts := pairwise_append.mp hxs
    refine pairwise_append.mpr ⟨hlast, hparts.2.1, fun y hy z hz => ?_⟩
    rcases mem_append.mp hy with hy | hy
    · exact hparts.2.2 y hy z hz
    · rw [mem_singleton.mp hy]
      exact before_of_ne (online_ne hpeer (hoff z hz))
  refine ⟨⟨?_, ?_, fun y hy i hi => ?_⟩, fun y hy => ?_⟩
  · rw [hsaid]
    exact hline b.wait hf.wait fun y hy => hf.offline y (.inl hy)
  · rw [hsaid]
    exact hline b.parked hf.parked fun y hy => hf.offline y (.inr hy)
  · show i < b.popped
    rw [hsaid, mem_append, or_assoc] at hy
    rcases hy with hy | hy | hy
    · exact hf.numbered y (.inl hy) i hi
    · rw [mem_singleton.mp hy] at hi
      cases hi
      omega
    · exact hf.numbered y (.inr hy) i hi
  · exact (hf.offline y hy).grows (forall₂_put _ _ _)

theorem Serves.finishing (hf : Finishing b) (hp : b.popped = k + 1) (h : Serves safe k ips b b') :
    Finishing b' := by
  induction h with
  | done b => exact hf
  | delay hoff hk _ ih => exact ih (hf.delay hp hoff (kept_sublist hk)) hp
  | put hpeer hip hm _ ih =>
    subst hip
    exact ih (hf.put hp hpeer hm) hp

theorem Finishes.finishing (hf : Finishing b) (h : Finishes safe ips b b') : Finishing b' := by
  cases h with
  | quiet h =>
    refine ⟨h.ordered hf.toOrdered, fun y hy => h.offline (hf.offline y ?_)⟩
    rw [h.rest] at hy
    exact hy
  | report h =>
    have hstart : Finishing { b with popped := b.popped + 1 } :=
      ⟨⟨hf.wait, hf.parked, hf.numbered.mono (Nat.le_succ _) fun _ hx => hx⟩, hf.offline⟩
    exact h.finishing hstart rfl

theorem Expires.ordered (ho : Ordered b) (h : Expires b b') : Ordered b' := by
  cases h with
  | wait hx =>
    refine ho.mono rfl rfl ?_ (List.Sublist.refl _)
    rw [hx]
    exact (sublist_cons_self _ _).append_left _
  | parked hx =>
    refine ho.mono rfl rfl (List.Sublist.refl _) ?_
    rw [hx]
    exact (sublist_cons_self _ _).append_left _
  | other x => exact ho.mono rfl rfl (List.Sublist.refl _) (List.Sublist.refl _)

theorem Ordered.unparking (ho : Ordered b) (ha : b.Apart) : Unparking b := by
  have hw := pairwise_append.mp ho.wait
  have hp := pairwise_append.mp ho.parked
  refine ⟨pairwise_append.mpr ⟨hw.1, pairwise_append.mpr ⟨hw.2.1, hp.2.1, ?_⟩, ?_⟩, ho.numbered⟩
  · exact fun x hx y hy => before_of_ne (ha x hx y hy)
  · exact fun x hx y hy => (mem_append.mp hy).elim (hw.2.2 x hx y) (hp.2.2 x hx y)

theorem Unparking.delaying (hu : Unparking b) (hp : b.parked = []) : Delaying b := by
  obtain ⟨hline, hnum⟩ := hu
  refine ⟨?_, fun x hx => ?_, hnum⟩
  · rw [hp, append_nil] at hline
    rw [hp]
    exact hline
  · rw [hp] at hx
    cases hx

theorem Delaying.finishing (hd : Delaying b) (hw : b.wait = []) : Finishing b := by
  obtain ⟨hline, hoff, hnum⟩ := hd
  rw [hw, append_nil] at hline
  refine ⟨⟨?_, hline, hnum⟩, fun x hx => ?_⟩
  · rw [hw, append_nil]
    exact (pairwise_append.mp hline).1
  · rw [hw] at hx
    exact hoff x (hx.resolve_left fun hx => by cases hx)

/-- **Reports to one member leave in order.** -/
theorem Turn.ordered (hwhole : whole) (ho : Ordered b) (h : Turn ips safe whole b b') :
    Ordered b' := by
  cases h with
  | quiet h => exact h.ordered ho
  | pass hstart hunpark hparked hdelay hwait hfin hend =>
    have h₁ := inv_of_moves (fun _ _ hb hm => Unparks.unparking hb hm) hunpark
      (ho.unparking (hstart hwhole))
    have h₂ := inv_of_moves (fun _ _ hb hm => Delays.delaying hb hm) hdelay
      (h₁.delaying (hparked hwhole))
    have h₃ := inv_of_moves (fun _ _ hb hm => Finishes.finishing hb hm) hfin
      (h₂.finishing (hwait hwhole))
    exact hend.ordered h₃.toOrdered
  | expire h => exact inv_of_moves (fun _ _ hb hm => Expires.ordered hb hm) h ho
  | _ => exact ho.mono rfl rfl (List.Sublist.refl _) (List.Sublist.refl _)

theorem Ordered.puts (ho : Ordered b) : b.puts.Pairwise fun x y => x.2 = y.2 → x.1 ≤ y.1 := by
  have hsaid := (pairwise_append.mp ho.wait).1
  rw [said, pairwise_map] at hsaid
  exact hsaid.imp fun {x y} hxy he => hxy he x.1 y.1 rfl rfl

end Order

end Book

end Pfs
