/-
  The event loop around a signalling plug-in (network/pfs_so.c): `do_recv`, `do_send`
  and the events a connection is registered for.

  A connection is registered for EPOLLIN at all times; `Wire.out` says whether for EPOLLOUT as
  well. The codes of the messages of one `svc_recv` are or-ed, and `do_recv` compares the result
  with single codes (`recvSwitch`).

  Main result: `armed_of_run`.
-/
import Pfs.Lib.Run
import Pfs.Services
import Pfs.SigFraming

namespace Pfs

open Lib List

/-! ## 1. Connections -/

def RECV_ADD_EPOLLALL : Nat := 0x06

/-- The sending side of a connection: its buffer, and whether it is registered for EPOLLOUT. -/
structure Wire where
  send : Mybuff
  out : Bool

/-- What a plug-in's `do_req` works on: its own record of the peer, and the sending side. -/
structure Linked (σ : Type) where
  peer : σ
  wire : Wire

/-- `set_client_data`. -/
def Wire.say (initBuffSize : Nat) (w : Wire) (msg : List UInt8) : Wire :=
  { w with send := mybuffSetdata initBuffSize w.send msg }

/-- `modify_fd_event`; EPOLLIN is always added. -/
def Wire.modifyFdEvent (w : Wire) (epollout : Bool) : Wire := { w with out := epollout }

@[simp] theorem Wire.contents_say (initBuffSize : Nat) (w : Wire) (msg : List UInt8) :
    (w.say initBuffSize msg).send.contents = w.send.contents ++ msg :=
  Mybuff.contents_setdata _ _

/-- A connection of a signalling service. -/
abbrev Link (σ : Type) := SigConn (Linked σ)

section Loop

variable {σ : Type}

/-- Change the sending side of a connection. -/
def Link.onWire (c : Link σ) (f : Wire → Wire) : Link σ :=
  { c with st := { c.st with wire := f c.st.wire } }

def Link.pending (c : Link σ) : List UInt8 := c.st.wire.send.contents

/-- `svc_initconn` and `add_fd_2_efd`. -/
def Link.fresh (peer : σ) : Link σ := SigConn.fresh ⟨peer, ⟨mybuffInit, false⟩⟩

/-! ## 2. `do_send` -/

/-- A plug-in: `do_req`, and `svc_send`, which may ask to close. -/
structure Plugin (σ : Type) where
  doReq : DoReq (Linked σ)
  svcSend : σ → Bool

variable (P : Plugin σ)

/-- The end of `do_send` when nothing is left: wait for input, and ask `svc_send`. -/
def sendEnd (c : Link σ) : Link σ :=
  { c with
    st := { c.st with wire := c.st.wire.modifyFdEvent false }
    closed := P.svcSend c.st.peer }

/-- `do_send`; a signalling connection has no file range. -/
def linkSend (r : SendRes) (c : Link σ) : Link σ :=
  if c.closed then c
  else
    match mybuffGetdata c.st.wire.send with
    | none => sendEnd P c
    | some data =>
      match r with
      | .sent n =>
        let c := c.onWire fun w => { w with send := mybuffSkipdata w.send n }
        if n < data.length then c.onWire (·.modifyFdEvent true) else sendEnd P c
      | .again => c.onWire (·.modifyFdEvent true)
      | .zero => c.onWire (·.modifyFdEvent true)
      | .err => { c with closed := true }

/-! ## 3. `do_recv` -/

/-- Outcome of one `recv`; no bytes: the peer has closed. -/
inductive RecvRes where
  | data (d : List UInt8)
  | eintr
  | eagain
  | err

/-- The read loop: `none` is a close; otherwise whether it ended with EAGAIN, and the buffer. A
    read that fills `iobuf` is followed by another. -/
def readLoop (initBuffSize : Nat) : List RecvRes → Mybuff → Option (Bool × Mybuff)
  | [], b => some (true, b)
  | .data d :: rs, b =>
    if d = [] then none
    else if d.length = initBuffSize then readLoop initBuffSize rs (mybuffSetdata initBuffSize b d)
    else some (false, mybuffSetdata initBuffSize b d)
  | .eintr :: rs, b => readLoop initBuffSize rs b
  | .eagain :: _, b => some (true, b)
  | .err :: _, _ => none

/-- The `switch` at the end of `do_recv`; `r` is what the `send` of a `do_send` returns. -/
def recvSwitch (r : SendRes) (code : Nat) (c : Link σ) : Link σ :=
  if code = RECV_SEND then linkSend P r c
  else if code = RECV_ADD_EPOLLIN then c.onWire (·.modifyFdEvent false)
  else if code = RECV_ADD_EPOLLOUT then c.onWire (·.modifyFdEvent true)
  else if code = RECV_ADD_EPOLLALL then c.onWire (·.modifyFdEvent true)
  else if code = RECV_CLOSE then { c with closed := true }
  else c

/-- `do_recv` once the bytes are in the buffer. -/
def serveRead (r : SendRes) (again : Bool) (b : Mybuff) (c : Link σ) : Link σ :=
  let c := if again then c.onWire (·.modifyFdEvent false) else c
  let x := svcRecv P.doReq { c with buff := b }
  recvSwitch P r x.1 x.2

/-- `do_recv` -/
def doRecv (initBuffSize : Nat) (rs : List RecvRes) (r : SendRes) (c : Link σ) : Link σ :=
  if c.closed then c
  else
    match readLoop initBuffSize rs c.buff with
    | none => { c with closed := true }
    | some (again, b) => serveRead P r again b c

/-! ## 4. Events -/

/-- What epoll or another handler does to a connection. -/
inductive LinkEvent where
  | readable (rs : List RecvRes) (r : SendRes)
  | writable (r : SendRes)
  /-- another handler queues a message and registers for EPOLLOUT, as `active_send` does -/
  | say (msg : List UInt8)
  /-- `do_close` by another handler -/
  | close

def linkNext (initBuffSize : Nat) (c : Link σ) : LinkEvent → Option (Link σ)
  | .readable rs r => some (doRecv P initBuffSize rs r c)
  | .writable r => some (linkSend P r c)
  | .say msg =>
    some (if c.closed then c
      else c.onWire fun w => (w.say initBuffSize msg).modifyFdEvent true)
  | .close => some { c with closed := true }

/-- Bytes that wait on an open connection are registered for EPOLLOUT. -/
def Armed (c : Link σ) : Prop := c.closed = false → c.pending ≠ [] → c.st.wire.out = true

variable {c : Link σ}

theorem armed_of_closed (h : c.closed = true) : Armed c := by
  intro hc
  cases h.symm.trans hc

theorem armed_of_out (h : c.st.wire.out = true) : Armed c := fun _ _ => h

theorem armed_of_empty (h : c.pending = []) : Armed c := fun _ hne => absurd h hne

theorem armed_fresh (peer : σ) : Armed (Link.fresh peer) := armed_of_empty rfl

/-- **`do_send` leaves a connection armed**, whatever the kernel answers. -/
theorem linkSend_armed (r : SendRes) (h : Armed c) : Armed (linkSend P r c) := by
  unfold linkSend
  split
  · exact h
  split
  · rename_i hg
    exact armed_of_empty (Mybuff.contents_of_getdata_none hg)
  rename_i data hg
  have hdata := (Mybuff.contents_of_getdata hg).1
  cases r with
  | sent n =>
    simp only
    split
    · exact armed_of_out rfl
    have he : c.st.wire.send.contents.drop n = [] :=
      drop_eq_nil_of_le (by rw [hdata]; omega)
    exact armed_of_empty ((Mybuff.contents_skipdata _ _).trans he)
  | again | zero => exact armed_of_out rfl
  | err => exact armed_of_closed rfl

end Loop

/-! ## 5. The messages of a batch -/

section Batch

variable {σ : Type}

/-- What one call of `do_req` does to the sending side `w`: it closes; or it leaves it alone; or it
    replies with the code `q`. No reply takes a registration away, and one that is not bare
    registers, or has the code with which `do_recv` does. -/
def MsgEffect (q : Nat) (arms bare : Prop) (w : Wire) (r : Linked σ × Nat) : Prop :=
  r.2 = RECV_CLOSE ∨ (r.2 = RECV_ADD_EPOLLIN ∧ r.1.wire = w ∧ ¬ arms) ∨
    (r.2 = q ∧ w.send.contents <+: r.1.wire.send.contents ∧
      (w.out = true → r.1.wire.out = true) ∧
      (¬ bare → q = RECV_ADD_EPOLLOUT ∨ r.1.wire.out = true))

namespace MsgEffect

variable {q : Nat} {arms bare : Prop} {w : Wire} {peer : σ}

theorem close (w' : Wire) : MsgEffect q arms bare w (⟨peer, w'⟩, RECV_CLOSE) := Or.inl rfl

theorem quiet (h : ¬ arms) : MsgEffect q arms bare w (⟨peer, w⟩, RECV_ADD_EPOLLIN) :=
  Or.inr (.inl ⟨rfl, rfl, h⟩)

theorem said (initBuffSize : Nat) (msg : List UInt8) :
    MsgEffect q arms bare w (⟨peer, (w.say initBuffSize msg).modifyFdEvent true⟩, q) := by
  refine .inr (.inr ⟨rfl, ?_, fun _ => rfl, fun _ => Or.inr rfl⟩)
  exact (Wire.contents_say initBuffSize w msg).symm ▸ prefix_append _ _

theorem queued (initBuffSize : Nat) (msg : List UInt8) (h : ¬ bare → q = RECV_ADD_EPOLLOUT) :
    MsgEffect q arms bare w (⟨peer, w.say initBuffSize msg⟩, q) := by
  refine .inr (.inr ⟨rfl, ?_, fun h => h, fun hb => Or.inl (h hb)⟩)
  exact (Wire.contents_say initBuffSize w msg).symm ▸ prefix_append _ _

theorem asked : MsgEffect RECV_ADD_EPOLLOUT arms bare w (⟨peer, w⟩, RECV_ADD_EPOLLOUT) :=
  Or.inr (.inr ⟨rfl, prefix_rfl, fun h => h, fun _ => Or.inl rfl⟩)

theorem test {c : Prop} [Decidable c] {x y : Linked σ × Nat} (hx : c → MsgEffect q arms bare w x)
    (hy : ¬ c → MsgEffect q arms bare w y) : MsgEffect q arms bare w (if c then x else y) := by
  by_cases h : c
  · rw [if_pos h]
    exact hx h
  · rw [if_neg h]
    exact hy h

end MsgEffect

/-- How the messages of a plug-in answer: all replies have the code `q`, and a message that `arms`
    holds of is always answered, and not barely. -/
structure Replies (q : Nat) (doReq : DoReq (Linked σ)) (arms bare : SigHead × List UInt8 → Prop) :
    Prop where
  code : q = RECV_ADD_EPOLLOUT ∨ q = RECV_SEND
  step : ∀ s (m : SigHead × List UInt8),
    MsgEffect q (arms m) (bare m) s.wire (doReq s m.1 m.2)
  arms_not_bare : ∀ m, arms m → ¬ bare m

/-- The reply code has been collected, and the connection is registered or will be. -/
def Ready (q ret : Nat) (w : Wire) : Prop :=
  ret = RECV_ADD_EPOLLIN ||| q ∧ (q = RECV_ADD_EPOLLOUT ∨ w.out = true)

variable {q ret : Nat} {c : Link σ} {doReq : DoReq (Linked σ)}
variable {arms bare : SigHead × List UInt8 → Prop}

namespace Replies

section Batches

variable (R : Replies q doReq arms bare)

include R

theorem or_codes :
    RECV_ADD_EPOLLIN ||| RECV_ADD_EPOLLIN = RECV_ADD_EPOLLIN ∧
      RECV_ADD_EPOLLIN ||| q ||| RECV_ADD_EPOLLIN = RECV_ADD_EPOLLIN ||| q ∧
      RECV_ADD_EPOLLIN ||| q ||| q = RECV_ADD_EPOLLIN ||| q := by
  rcases R.code with rfl | rfl <;> decide

theorem ready_step {s : Linked σ} {m : SigHead × List UInt8} (h : Ready q ret s.wire)
    (hgo : (doReq s m.1 m.2).2 ≠ RECV_CLOSE) :
    Ready q (ret ||| (doReq s m.1 m.2).2) (doReq s m.1 m.2).1.wire := by
  obtain ⟨rfl, hout⟩ := h
  obtain ⟨-, hquiet, hreply⟩ := R.or_codes
  rcases R.step s m with hc | ⟨hc, hw, -⟩ | ⟨hc, -, hkeep, -⟩
  · exact absurd hc hgo
  · rw [hc, hw]
    exact ⟨hquiet, hout⟩
  · rw [hc]
    exact ⟨hreply, hout.imp_right hkeep⟩

theorem ready_of_reply {s : Linked σ}
    {m : SigHead × List UInt8} (hret : ret = RECV_ADD_EPOLLIN ∨ ret = RECV_ADD_EPOLLIN ||| q)
    (hc : (doReq s m.1 m.2).2 = q)
    (hout : q = RECV_ADD_EPOLLOUT ∨ (doReq s m.1 m.2).1.wire.out = true) :
    Ready q (ret ||| (doReq s m.1 m.2).2) (doReq s m.1 m.2).1.wire := by
  rw [hc]
  rcases hret with rfl | rfl
  · exact ⟨rfl, hout⟩
  · exact ⟨R.or_codes.2.2, hout⟩

theorem svcRecv_of_not_bare (hb : ∀ m ∈ sigFramer.frames c.buff.contents, ¬ bare m) :
    (svcRecv doReq c).1 = RECV_CLOSE ∨
      ((svcRecv doReq c).1 = RECV_ADD_EPOLLIN ∧ (svcRecv doReq c).2.st.wire = c.st.wire) ∨
      Ready q (svcRecv doReq c).1 (svcRecv doReq c).2.st.wire := by
  let J : Nat → Link σ → Prop := fun ret x =>
    (∀ m ∈ sigFramer.frames x.buff.contents, ¬ bare m) ∧
      ((ret = RECV_ADD_EPOLLIN ∧ x.st.wire = c.st.wire) ∨ Ready q ret x.st.wire)
  refine (svcRecvLoop_inv (J := J) ?_ ⟨hb, Or.inl ⟨rfl, rfl⟩⟩).imp_right fun h => h.2
  intro ret x x' m ⟨hx, hj⟩ hnext hst hgo
  have hnext' : sigFramer.next x.buff.contents = some (m, x'.buff.contents) := hnext
  rw [sigFramer.frames_of_some hnext'] at hx
  refine ⟨fun m' hm' => hx m' (mem_cons_of_mem _ hm'), ?_⟩
  rw [hst]
  rcases hj with ⟨rfl, hw⟩ | hready
  · rcases R.step x.st m with hc | ⟨hc, hsame, -⟩ | ⟨hc, -, -, hout⟩
    · exact absurd hc hgo
    · exact .inl ⟨by rw [hc]; exact R.or_codes.1, by rw [hsame, hw]⟩
    · exact .inr (R.ready_of_reply (Or.inl rfl) hc (hout (hx m mem_cons_self)))
  · exact .inr (R.ready_step hready hgo)

theorem svcRecv_of_arms (hs : c.buff.contents.length < 2 ^ 31)
    (ha : ∃ m ∈ sigFramer.frames c.buff.contents, arms m) :
    (svcRecv doReq c).1 = RECV_CLOSE ∨ Ready q (svcRecv doReq c).1 (svcRecv doReq c).2.st.wire := by
  let J : Nat → Link σ → Prop := fun ret x =>
    ((ret = RECV_ADD_EPOLLIN ∨ ret = RECV_ADD_EPOLLIN ||| q) ∧
      ∃ m ∈ sigFramer.frames x.buff.contents, arms m) ∨ Ready q ret x.st.wire
  have hloop : (svcRecv doReq c).1 = RECV_CLOSE ∨ J (svcRecv doReq c).1 (svcRecv doReq c).2 := by
    refine svcRecvLoop_inv (J := J) ?_ (Or.inl ⟨Or.inl rfl, ha⟩)
    intro ret x x' m hj hnext hst hgo
    change _ ∨ Ready q _ x'.st.wire
    rw [hst]
    rcases hj with ⟨hret, hx⟩ | hready
    · have hnext' : sigFramer.next x.buff.contents = some (m, x'.buff.contents) := hnext
      rw [sigFramer.frames_of_some hnext'] at hx
      obtain ⟨m', hm', harms⟩ := hx
      rcases R.step x.st m with hc | ⟨hc, -, hna⟩ | ⟨hc, -, -, hout⟩
      · exact absurd hc hgo
      · -- not the message that is sure to be answered: that one is still to come
        rcases mem_cons.mp hm' with rfl | hm'
        · exact absurd harms hna
        refine .inl ⟨?_, m', hm', harms⟩
        rw [hc]
        rcases hret with rfl | rfl
        · exact .inl R.or_codes.1
        · exact .inr R.or_codes.2.1
      · rcases mem_cons.mp hm' with rfl | hm'
        · exact .inr (R.ready_of_reply hret hc (hout (R.arms_not_bare m' harms)))
        refine .inl ⟨Or.inr ?_, m', hm', harms⟩
        rw [hc]
        rcases hret with rfl | rfl
        · rfl
        · exact R.or_codes.2.2
    · exact .inr (R.ready_step hready hgo)
  rcases hloop with hclose | ⟨-, m, hm, -⟩ | hready
  · exact .inl hclose
  · -- every frame has been served, so none is left to be answered
    by_cases hclose : (svcRecv doReq c).1 = RECV_CLOSE
    · exact .inl hclose
    have hserved := svcRecv_spec doReq hs
    have hleft := hserved.buff (by rw [← hserved.close]; simpa using hclose)
    rw [hleft, sigFramer.frames_of_none (sigFramer.next_rest _)] at hm
    cases hm
  · exact .inr hready

end Batches

end Replies

/-! ## 6. A batch, and a run -/

variable {P : Plugin σ} {initBuffSize : Nat}

theorem recvSwitch_ready (r : SendRes) (hq : q = RECV_ADD_EPOLLOUT ∨ q = RECV_SEND)
    (h : Ready q ret c.st.wire) : (recvSwitch P r ret c).st.wire.out = true := by
  obtain ⟨rfl, hout⟩ := h
  rcases hq with rfl | rfl
  · rfl
  · exact hout.resolve_left (by decide)

theorem recvSwitch_close (r : SendRes) (c : Link σ) :
    (recvSwitch P r RECV_CLOSE c).closed = true := rfl

theorem recvSwitch_epollin (r : SendRes) (c : Link σ) :
    (recvSwitch P r RECV_ADD_EPOLLIN c).pending = c.pending := rfl

/-- The condition on what a call of `do_recv` reads: nothing waits to be sent and no message gets a
    bare reply, or one of the messages is sure to be answered. -/
def Timely (initBuffSize : Nat) (arms bare : SigHead × List UInt8 → Prop) (c : Link σ) :
    LinkEvent → Prop
  | .readable rs _ => ∀ again b, readLoop initBuffSize rs c.buff = some (again, b) →
      (c.pending = [] ∧ ∀ m ∈ sigFramer.frames b.contents, ¬ bare m) ∨
      (b.contents.length < 2 ^ 31 ∧ ∃ m ∈ sigFramer.frames b.contents, arms m)
  | _ => True

variable {rs : List RecvRes} {r : SendRes}

/-- **A timely batch leaves the connection armed.** -/
theorem doRecv_armed (R : Replies q P.doReq arms bare)
    (ht : Timely initBuffSize arms bare c (.readable rs r)) :
    Armed (doRecv P initBuffSize rs r c) := by
  unfold doRecv
  split
  · rename_i hc
    exact armed_of_closed hc
  split
  · exact armed_of_closed rfl
  rename_i again b hread
  have hpend : ∀ x : Link σ, (if again = true then x.onWire (·.modifyFdEvent false) else x).pending
      = x.pending := by
    intro x
    split <;> rfl
  unfold serveRead
  simp only
  generalize hx : (if again = true then c.onWire (·.modifyFdEvent false) else c) = x
  have hxc : x.pending = c.pending := by rw [← hx]; exact hpend c
  rcases ht again b hread with ⟨hempty, hb⟩ | ⟨hs, ha⟩
  · rcases R.svcRecv_of_not_bare (c := { x with buff := b }) hb with hclose | ⟨hret, hw⟩ | hready
    · rw [hclose]
      exact armed_of_closed (recvSwitch_close _ _)
    · rw [hret]
      refine armed_of_empty ?_
      rw [recvSwitch_epollin, ← hempty, ← hxc]
      exact congrArg (·.send.contents) hw
    · exact armed_of_out (recvSwitch_ready r R.code hready)
  · rcases R.svcRecv_of_arms (c := { x with buff := b }) hs ha with hclose | hready
    · rw [hclose]
      exact armed_of_closed (recvSwitch_close _ _)
    · exact armed_of_out (recvSwitch_ready r R.code hready)

/-- No code that is collected is RECV_SEND alone, so `do_recv` sends nothing itself. -/
theorem recvSwitch_pending (r : SendRes) (h : ret.testBit 1 = true) (c : Link σ) :
    (recvSwitch P r ret c).pending = c.pending := by
  have hne : ret ≠ RECV_SEND := by
    rintro rfl
    exact absurd h (by decide)
  unfold recvSwitch
  rw [if_neg hne]
  split
  · rfl
  split
  · rfl
  split
  · rfl
  · split <;> rfl

section Steps

variable (R : Replies q P.doReq arms bare)

include R

theorem doRecv_grows (ho : (doRecv P initBuffSize rs r c).closed = false) :
    c.pending <+: (doRecv P initBuffSize rs r c).pending := by
  unfold doRecv at ho ⊢
  split at ho
  · rename_i hc
    cases hc.symm.trans ho
  rename_i hc
  rw [if_neg hc]
  split at ho
  · cases ho
  rename_i again b hread
  unfold serveRead at ho ⊢
  simp only at ho ⊢
  have hpend : (if again = true then c.onWire (·.modifyFdEvent false) else c).pending =
      c.pending := by
    split <;> rfl
  generalize (if again = true then c.onWire (·.modifyFdEvent false) else c) = x at ho hpend ⊢
  let J : Nat → Link σ → Prop := fun ret y => ret.testBit 1 = true ∧ c.pending <+: y.pending
  have hinit : J RECV_ADD_EPOLLIN { x with buff := b } :=
    ⟨by decide, by rw [← hpend]; exact prefix_rfl⟩
  have hloop : (svcRecv P.doReq { x with buff := b }).1 = RECV_CLOSE ∨
      J (svcRecv P.doReq { x with buff := b }).1 (svcRecv P.doReq { x with buff := b }).2 := by
    refine svcRecvLoop_inv (J := J) ?_ hinit
    intro ret y y' m ⟨hbit, hpre⟩ _ hst hgo
    refine ⟨by rw [Nat.testBit_or, hbit, Bool.true_or], hpre.trans ?_⟩
    change y.st.wire.send.contents <+: y'.st.wire.send.contents
    rw [hst]
    rcases R.step y.st m with hc | ⟨-, hw, -⟩ | ⟨-, hgrow, -, -⟩
    · exact absurd hc hgo
    · exact ⟨[], by rw [hw, append_nil]⟩
    · exact hgrow
  rcases hloop with hclose | ⟨hbit, hpre⟩
  · rw [hclose, recvSwitch_close] at ho
    cases ho
  · rw [recvSwitch_pending r hbit]
    exact hpre

theorem doRecv_registered (ht : Timely initBuffSize arms bare c (.readable rs r))
    (ho : (doRecv P initBuffSize rs r c).closed = false)
    (hsaid : (doRecv P initBuffSize rs r c).pending ≠ c.pending) :
    (doRecv P initBuffSize rs r c).st.wire.out = true := by
  refine doRecv_armed R ht ho fun hempty => hsaid ?_
  have hpre := doRecv_grows R ho
  rw [hempty] at hpre ⊢
  exact (prefix_nil.mp hpre).symm

theorem linkNext_armed {c c' : Link σ} {a : LinkEvent}
    (h : Armed c) (ht : Timely initBuffSize arms bare c a)
    (hs : linkNext P initBuffSize c a = some c') : Armed c' := by
  cases a with
  | readable rs r =>
    cases hs
    exact doRecv_armed R ht
  | writable r =>
    cases hs
    exact linkSend_armed P r h
  | say msg =>
    cases hs
    split
    · exact h
    · exact armed_of_out rfl
  | close =>
    cases hs
    exact armed_of_closed rfl

/-- **Run**: in every state that timely steps reach, the connection is armed. -/
theorem armed_of_run {peer : σ}
    (h : Run (linkNext P initBuffSize) (Timely initBuffSize arms bare) (Link.fresh peer) c) :
    Armed c :=
  h.inv (armed_fresh peer) fun _ _ _ hi hok hs => linkNext_armed R hi hok hs

end Steps

end Batch

end Pfs
