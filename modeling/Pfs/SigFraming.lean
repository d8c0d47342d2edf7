/-
  The receive loop of the two signalling services (network/S/pfs_sig.c,
  network/N/pfs_sig.c): `check_req` and `svc_recv`, over the connection buffer.

  `do_req` is a parameter: a function of the service's state, the head and the zero-padded body
  that returns the new state and the RECV code. Both services share the loop.

  Main result: `sigFraming_iff`.
-/
import Pfs.Protocol

namespace Pfs

open Lib List

/-- `do_req` of a signalling service. -/
abbrev DoReq (σ : Type) := σ → SigHead → List UInt8 → σ × Nat

/-- A signalling connection with the service's state and the calls of `do_req` made so far. -/
structure SigConn (σ : Type) where
  buff : Mybuff
  st : σ
  calls : List (SigHead × List UInt8)
  closed : Bool

section Loop

variable {σ : Type} (doReq : DoReq σ)

/-- `check_req` from the result of `parse_sig_msg` on. -/
def checkParsed (c : SigConn σ) : ParseRet × SigHead × List UInt8 → Option (Nat × SigConn σ)
  | (.headLen, _, _) => none
  | (.totalLen, _, _) => none
  | (.errClose, _, _) => some (RECV_CLOSE, c)
  | (.ok, h, b) =>
    let clen := h.bodylen + SIG_HEADSIZE
    let r := doReq c.st h b
    let calls := c.calls ++ [(h, b)]
    some (r.2, { c with buff := mybuffSkipdata c.buff clen, st := r.1, calls := calls })

/-- `check_req`: `none` is `-1` (wait for more data), otherwise the code and the new state. -/
def checkReq (c : SigConn σ) : Option (Nat × SigConn σ) :=
  match mybuffGetdata c.buff with
  | none => none
  | some data => checkParsed doReq c (parseSigMsg zeroBody data (toInt32 data.length))

/-- The `while (1)` of `svc_recv`; `ret` collects the codes. -/
def svcRecvLoop : Nat → Nat → SigConn σ → Nat × SigConn σ
  | 0, ret, c => (ret, c)
  | n + 1, ret, c =>
    match checkReq doReq c with
    | none => (ret, c)
    | some (subret, c') =>
      if subret = RECV_CLOSE then (RECV_CLOSE, c') else svcRecvLoop n (ret ||| subret) c'

/-- `svc_recv`. Every round but the last consumes a head, so the buffered bytes bound the rounds. -/
def svcRecv (c : SigConn σ) : Nat × SigConn σ :=
  svcRecvLoop doReq c.buff.len RECV_ADD_EPOLLIN c

/-- A chunk arrives: `mybuff_setdata`, then `svc_recv`; on RECV_CLOSE the connection is closed. -/
def deliver (initBuffSize : Nat) (c : SigConn σ) (chunk : List UInt8) : SigConn σ :=
  if c.closed then c
  else
    let r := svcRecv doReq { c with buff := mybuffSetdata initBuffSize c.buff chunk }
    { r.2 with closed := r.1 == RECV_CLOSE }

def SigConn.fresh (st : σ) : SigConn σ := ⟨mybuffInit, st, [], false⟩

/-- The chunks of a connection, one `svc_recv` each. -/
def deliverAll (initBuffSize : Nat) (st : σ) (chunks : List (List UInt8)) : SigConn σ :=
  chunks.foldl (deliver doReq initBuffSize) (SigConn.fresh st)

/-- What the service does with one message, and whether it asks to close. -/
def handle (st : σ) (m : SigHead × List UInt8) : σ × Bool :=
  ((doReq st m.1 m.2).1, (doReq st m.1 m.2).2 == RECV_CLOSE)

end Loop

/-! ## 1. One round -/

section Round

variable {σ : Type} {doReq : DoReq σ}

theorem checkReq_eq (c : SigConn σ) :
    checkReq doReq c = if c.buff.contents = [] then none else
      checkParsed doReq c
        (parseSigMsg zeroBody c.buff.contents (toInt32 c.buff.contents.length)) := by
  unfold checkReq
  rw [c.buff.getdata_eq]
  by_cases he : c.buff.contents = []
  · rw [if_pos he, if_pos he]
  · rw [if_neg he, if_neg he]

theorem checkReq_none {c : SigConn σ} (hs : c.buff.contents.length < 2 ^ 31)
    (h : sigNext c.buff.contents = none) : checkReq doReq c = none := by
  rw [checkReq_eq]
  split
  · rfl
  have hw := parse_none zeroBody hs h
  generalize parseSigMsg zeroBody c.buff.contents (toInt32 c.buff.contents.length) = p at hw ⊢
  obtain ⟨ret, hd, b⟩ := p
  rcases hw with hw | hw
  · cases hw
    rfl
  · cases hw
    rfl

theorem checkReq_some (doReq : DoReq σ) {c : SigConn σ} {m : SigHead × List UInt8} {r : List UInt8}
    (hs : c.buff.contents.length < 2 ^ 31) (h : sigNext c.buff.contents = some (m, r)) :
    ∃ c', checkReq doReq c = some ((doReq c.st m.1 m.2).2, c') ∧ c'.buff.contents = r ∧
      c'.st = (doReq c.st m.1 m.2).1 ∧ c'.calls = c.calls ++ [m] := by
  obtain ⟨hp, hr⟩ := parse_some hs h
  have he : c.buff.contents ≠ [] := by
    intro e
    have hlt := sigNext_shrink h
    rw [e] at hlt
    exact Nat.not_lt_zero _ hlt
  rw [checkReq_eq, if_neg he, hp]
  exact ⟨_, rfl, by rw [Mybuff.contents_skipdata, hr], rfl, rfl⟩

theorem sigNext_of_checkReq {c c' : SigConn σ} {code : Nat}
    (h : checkReq doReq c = some (code, c')) :
    ∃ m, sigNext c.buff.contents = some (m, c'.buff.contents) ∧ code = (doReq c.st m.1 m.2).2 ∧
      c'.st = (doReq c.st m.1 m.2).1 ∧ c'.calls = c.calls ++ [m] ∧ c'.closed = c.closed := by
  rw [checkReq_eq] at h
  split at h
  · cases h
  have hmod := toInt32_le_mod c.buff.contents.length
  have hnext := @sigNext_of_parse_ok c.buff.contents (toInt32 c.buff.contents.length) (by omega)
  have herr := parse_ne_errClose zeroBody c.buff.contents (toInt32 c.buff.contents.length)
  generalize parseSigMsg zeroBody c.buff.contents (toInt32 c.buff.contents.length) = p
    at h hnext herr
  obtain ⟨ret, hd, b⟩ := p
  cases ret with
  | headLen => cases h
  | totalLen => cases h
  | errClose => exact absurd rfl herr
  | ok =>
    cases h
    exact ⟨(hd, b), by rw [hnext rfl, Mybuff.contents_skipdata], rfl, rfl, rfl, rfl⟩

/-- **A long buffer stays long**: a round on `2^31` bytes or more takes at most what is above the
    next multiple of `2^32`. -/
theorem checkReq_long {c c' : SigConn σ} {code : Nat} (hl : 2 ^ 31 ≤ c.buff.contents.length)
    (h : checkReq doReq c = some (code, c')) :
    2 ^ 31 ≤ c'.buff.contents.length ∧ ∃ hd b, code = (doReq c.st hd b).2 := by
  rw [checkReq_eq] at h
  have he : c.buff.contents ≠ [] := by
    intro e
    rw [e] at hl
    exact absurd hl (by decide)
  rw [if_neg he] at h
  have hlen := parse_ok_le zeroBody c.buff.contents (toInt32 c.buff.contents.length)
  have herr := parse_ne_errClose zeroBody c.buff.contents (toInt32 c.buff.contents.length)
  generalize parseSigMsg zeroBody c.buff.contents (toInt32 c.buff.contents.length) = p
    at h hlen herr
  obtain ⟨ret, hd, b⟩ := p
  cases ret with
  | headLen => cases h
  | totalLen => cases h
  | errClose => exact absurd rfl herr
  | ok =>
    cases h
    refine ⟨?_, hd, b, rfl⟩
    have hle := hlen rfl
    have hmod := toInt32_le_mod c.buff.contents.length
    have hneg := @toInt32_neg c.buff.contents.length
    simp only [Mybuff.contents_skipdata, length_drop] at *
    omega

end Round

/-! ## 2. One call -/

section Call

variable {σ : Type} {doReq : DoReq σ}

variable {ret n : Nat}

/-- Bit 1 (`RECV_ADD_EPOLLIN`) is set in every code the loop collects, so none of them is
    RECV_CLOSE. -/
theorem ne_close_of_testBit (h : ret.testBit 1 = true) : ret ≠ RECV_CLOSE := by
  rintro rfl
  exact absurd h (by decide)

variable {c : SigConn σ}

/-- **The rule for the loop**: what every round that does not close keeps holds at the end, unless a
    round closes. -/
theorem svcRecvLoop_inv {J : Nat → SigConn σ → Prop}
    (hstep : ∀ ret c c' m, J ret c → sigNext c.buff.contents = some (m, c'.buff.contents) →
      c'.st = (doReq c.st m.1 m.2).1 → (doReq c.st m.1 m.2).2 ≠ RECV_CLOSE →
      J (ret ||| (doReq c.st m.1 m.2).2) c') (h : J ret c) :
    (svcRecvLoop doReq n ret c).1 = RECV_CLOSE ∨
      J (svcRecvLoop doReq n ret c).1 (svcRecvLoop doReq n ret c).2 := by
  induction n generalizing ret c with
  | zero => exact .inr h
  | succ n ih =>
    simp only [svcRecvLoop]
    cases hx : checkReq doReq c with
    | none => exact .inr h
    | some p =>
      obtain ⟨code, c'⟩ := p
      obtain ⟨m, hnext, rfl, hst, -, -⟩ := sigNext_of_checkReq hx
      simp only
      split
      · exact .inl rfl
      · rename_i hgo
        exact ih (hstep ret c c' m h hnext hst hgo)

/-- `c` and the code `ret` are what serving `ms` from state `st`, with `log` already called, and
    leaving `left` in the buffer looks like. -/
structure Served (doReq : DoReq σ) (st : σ) (log ms : List (SigHead × List UInt8))
    (left : List UInt8) (ret : Nat) (c : SigConn σ) : Prop where
  state : c.st = (serve (handle doReq) st ms).1
  calls : c.calls = log ++ (serve (handle doReq) st ms).2.1
  close : (ret == RECV_CLOSE) = (serve (handle doReq) st ms).2.2
  buff : (serve (handle doReq) st ms).2.2 = false → c.buff.contents = left

theorem Served.trans {st : σ} {ms ms' log : List (SigHead × List UInt8)} {left left' : List UInt8}
    {ret' : Nat} {c' : SigConn σ} (h : Served doReq st log ms left ret c)
    (hret : (ret == RECV_CLOSE) = false) (h' : Served doReq c.st c.calls ms' left' ret' c') :
    Served doReq st log (ms ++ ms') left' ret' c' := by
  have hgo := serve_append_of_go ms' (h.close.symm.trans hret)
  obtain ⟨hst, hcalls, hclose, hbuff⟩ := h'
  rw [h.state] at hst hcalls hclose hbuff
  rw [h.calls, append_assoc] at hcalls
  exact ⟨by rw [hgo]; exact hst, by rw [hgo]; exact hcalls, by rw [hgo]; exact hclose,
    by rw [hgo]; exact hbuff⟩

theorem svcRecvLoop_spec (ret : Nat) (hn : c.buff.contents.length ≤ n)
    (hs : c.buff.contents.length < 2 ^ 31) (hret : ret.testBit 1 = true) :
    Served doReq c.st c.calls (sigFramer.frames c.buff.contents) (sigFramer.rest c.buff.contents)
      (svcRecvLoop doReq n ret c).1 (svcRecvLoop doReq n ret c).2 := by
  induction n generalizing ret c with
  | zero =>
    have he : c.buff.contents = [] := length_eq_zero_iff.mp (Nat.le_zero.mp hn)
    have hne : (ret == RECV_CLOSE) = false := by simpa using ne_close_of_testBit hret
    rw [he]
    exact ⟨rfl, (append_nil _).symm, hne, fun _ => he⟩
  | succ n ih =>
    cases hx : sigFramer.next c.buff.contents with
    | none =>
      have hne : (ret == RECV_CLOSE) = false := by simpa using ne_close_of_testBit hret
      rw [sigFramer.frames_of_none hx, sigFramer.rest_of_none hx]
      simp only [svcRecvLoop, checkReq_none hs hx]
      exact ⟨rfl, (append_nil _).symm, hne, fun _ => rfl⟩
    | some p =>
      obtain ⟨m, r⟩ := p
      obtain ⟨c', hc, hb, hst, hcalls⟩ := checkReq_some doReq hs hx
      have hlt : r.length < c.buff.contents.length := sigFramer.shrink hx
      rw [sigFramer.frames_of_some hx, sigFramer.rest_of_some hx]
      simp only [svcRecvLoop, hc]
      by_cases hclose : (doReq c.st m.1 m.2).2 = RECV_CLOSE
      · -- the handler closes: this message is the last one it was given
        have hh : (handle doReq c.st m).2 = true := by simpa [handle] using hclose
        rw [if_pos hclose]
        exact ⟨by rw [serve_cons_of_stop hh]; exact hst, by
          rw [serve_cons_of_stop hh]; exact hcalls,
          by rw [serve_cons_of_stop hh]; rfl, fun hgo => by
            rw [serve_cons_of_stop hh] at hgo; cases hgo⟩
      have hh : (handle doReq c.st m).2 = false := by simpa [handle] using hclose
      have hst' : (handle doReq c.st m).1 = c'.st := hst.symm
      rw [if_neg hclose]
      have ih' := ih (ret ||| (doReq c.st m.1 m.2).2) (c := c') (by rw [hb]; omega)
        (by rw [hb]; omega) (by rw [Nat.testBit_or, hret, Bool.true_or])
      rw [hb] at ih'
      have hcat : c.calls ++ m :: (serve (handle doReq) c'.st (sigFramer.frames r)).2.1 =
          c'.calls ++ (serve (handle doReq) c'.st (sigFramer.frames r)).2.1 := by
        rw [hcalls, append_assoc, singleton_append]
      exact ⟨by rw [serve_cons_of_go hh, hst']; exact ih'.state,
        by rw [serve_cons_of_go hh, hst', hcat]; exact ih'.calls,
        by rw [serve_cons_of_go hh, hst']; exact ih'.close,
        by rw [serve_cons_of_go hh, hst']; exact ih'.buff⟩

theorem svcRecv_spec (doReq : DoReq σ) (hs : c.buff.contents.length < 2 ^ 31) :
    Served doReq c.st c.calls (sigFramer.frames c.buff.contents) (sigFramer.rest c.buff.contents)
      (svcRecv doReq c).1 (svcRecv doReq c).2 :=
  svcRecvLoop_spec _ (Nat.le_of_eq c.buff.contents_length) hs (by decide)

theorem svcRecvLoop_long (ret : Nat) (hgo : ∀ st h b, (doReq st h b).2 ≠ RECV_CLOSE)
    (hl : 2 ^ 31 ≤ c.buff.contents.length) (hret : ret.testBit 1 = true) :
    2 ^ 31 ≤ (svcRecvLoop doReq n ret c).2.buff.contents.length ∧
      (svcRecvLoop doReq n ret c).1 ≠ RECV_CLOSE := by
  induction n generalizing ret c with
  | zero => exact ⟨hl, ne_close_of_testBit hret⟩
  | succ n ih =>
    simp only [svcRecvLoop]
    cases hx : checkReq doReq c with
    | none => exact ⟨hl, ne_close_of_testBit hret⟩
    | some p =>
      obtain ⟨code, c'⟩ := p
      obtain ⟨hl', hd, b, rfl⟩ := checkReq_long hl hx
      have hne : (doReq c.st hd b).2 ≠ RECV_CLOSE := hgo c.st hd b
      simp only [if_neg hne]
      exact ih _ hl' (by rw [Nat.testBit_or, hret, Bool.true_or])

/-- **One call of `svc_recv`** on `2^31` buffered bytes or more: unless the handler closes, a
    complete frame is left in the buffer. -/
theorem svcRecv_long (hgo : ∀ st h b, (doReq st h b).2 ≠ RECV_CLOSE)
    (hl : 2 ^ 31 ≤ c.buff.contents.length) :
    (svcRecv doReq c).1 ≠ RECV_CLOSE ∧ sigNext (svcRecv doReq c).2.buff.contents ≠ none := by
  obtain ⟨hlong, hne⟩ := svcRecvLoop_long (n := c.buff.len) RECV_ADD_EPOLLIN hgo hl
    (by decide)
  obtain ⟨m, r, hx⟩ := next_of_long (s := (svcRecv doReq c).2.buff.contents)
    (Nat.le_trans (by decide) hlong)
  exact ⟨hne, by rw [hx]; exact Option.some_ne_none _⟩

end Call

/-! ## 3. All chunks of a connection -/

/-- No call finds `2^31` bytes or more: the bytes of the frame still incomplete and the chunk. -/
def Fits : List UInt8 → List (List UInt8) → Prop
  | _, [] => True
  | tail, chunk :: chunks =>
    (tail ++ chunk).length < 2 ^ 31 ∧ Fits (sigFramer.rest (tail ++ chunk)) chunks

section Chunks

variable {σ : Type} {doReq : DoReq σ} {initBuffSize : Nat}

/-- The connection has done with the bytes `bs` what serving their frames says. -/
def Tracks (doReq : DoReq σ) (st : σ) (bs : List UInt8) (c : SigConn σ) : Prop :=
  Served doReq st [] (sigFramer.frames bs) (sigFramer.rest bs)
    (if c.closed then RECV_CLOSE else RECV_ADD_EPOLLIN) c

variable {c : SigConn σ} {st : σ}

theorem closed_of_tracks {bs : List UInt8} (h : Tracks doReq st bs c) :
    c.closed = (serve (handle doReq) st (sigFramer.frames bs)).2.2 := by
  rw [← h.close]
  cases c.closed <;> rfl

theorem deliver_open (chunk : List UInt8) (hc : c.closed = false) :
    deliver doReq initBuffSize c chunk =
      { (svcRecv doReq { c with buff := mybuffSetdata initBuffSize c.buff chunk }).2 with
        closed := (svcRecv doReq
          { c with buff := mybuffSetdata initBuffSize c.buff chunk }).1 == RECV_CLOSE } := by
  unfold deliver
  rw [if_neg (by rw [hc]; exact Bool.false_ne_true)]

theorem deliver_tracks (initBuffSize : Nat) {bs chunk : List UInt8} (h : Tracks doReq st bs c)
    (hfit : (sigFramer.rest bs ++ chunk).length < 2 ^ 31) :
    Tracks doReq st (bs ++ chunk) (deliver doReq initBuffSize c chunk) := by
  have hcl := closed_of_tracks h
  unfold Tracks
  rw [sigFramer.frames_append, sigFramer.rest_append]
  cases hc : c.closed with
  | true =>
    -- a closed connection is given nothing more, and serving stopped as well
    rw [hc] at hcl
    have hstop := serve_append_of_stop (sigFramer.frames (sigFramer.rest bs ++ chunk)) hcl.symm
    have hd : deliver doReq initBuffSize c chunk = c := if_pos hc
    rw [hd, hc]
    refine ⟨by rw [hstop]; exact h.state, by rw [hstop]; exact h.calls, by rw [hstop]; exact hcl,
      ?_⟩
    rw [hstop, ← hcl]
    exact fun hf => by cases hf
  | false =>
    rw [hc] at hcl
    have hb : (mybuffSetdata initBuffSize c.buff chunk).contents = sigFramer.rest bs ++ chunk := by
      rw [Mybuff.contents_setdata, h.buff hcl.symm]
    have hcall := svcRecv_spec doReq
      (c := { c with buff := mybuffSetdata initBuffSize c.buff chunk }) (by rw [hb]; exact hfit)
    rw [deliver_open chunk hc]
    generalize svcRecv doReq { c with buff := mybuffSetdata initBuffSize c.buff chunk } =
      r at hcall ⊢
    rw [hb] at hcall
    have hall := Served.trans h (by rw [hc]; rfl) hcall
    refine ⟨hall.state, hall.calls, ?_, hall.buff⟩
    rw [← hall.close]
    cases hr : r.1 == RECV_CLOSE <;> rfl

theorem foldl_tracks (bs : List UInt8) {chunks : List (List UInt8)} (h : Tracks doReq st bs c)
    (hfit : Fits (sigFramer.rest bs) chunks) :
    Tracks doReq st (bs ++ chunks.flatten) (chunks.foldl (deliver doReq initBuffSize) c) := by
  induction chunks generalizing bs c with
  | nil => simpa using h
  | cons chunk chunks ih =>
    obtain ⟨hlt, hrest⟩ := hfit
    rw [← sigFramer.rest_append] at hrest
    have hstep := deliver_tracks initBuffSize h hlt
    rw [flatten_cons, ← append_assoc, foldl_cons]
    exact ih _ hstep hrest

theorem deliverAll_tracks (doReq : DoReq σ) (initBuffSize : Nat) (st : σ)
    {chunks : List (List UInt8)} (hfit : Fits [] chunks) :
    Tracks doReq st chunks.flatten (deliverAll doReq initBuffSize st chunks) :=
  foldl_tracks [] ⟨rfl, rfl, rfl, fun _ => rfl⟩ hfit

end Chunks

variable {chunks : List (List UInt8)}

theorem Fits.of_prefix {tail : List UInt8} {pre : List (List UInt8)} (h : Fits tail chunks)
    (hp : pre <+: chunks) : Fits tail pre := by
  induction pre generalizing tail chunks with
  | nil => trivial
  | cons p pre ih =>
    obtain ⟨x, rfl⟩ := hp
    exact ⟨h.1, ih h.2 ⟨x, rfl⟩⟩

theorem exists_first_long (bs : List UInt8) (h : ¬ Fits (sigFramer.rest bs) chunks) :
    ∃ pre chunk, pre ++ [chunk] <+: chunks ∧ Fits (sigFramer.rest bs) pre ∧
      2 ^ 31 ≤ (sigFramer.rest (bs ++ pre.flatten) ++ chunk).length := by
  induction chunks generalizing bs with
  | nil => exact absurd trivial h
  | cons chunk chunks ih =>
    by_cases hlt : (sigFramer.rest bs ++ chunk).length < 2 ^ 31
    · have hrest : ¬ Fits (sigFramer.rest (bs ++ chunk)) chunks := by
        rw [sigFramer.rest_append]
        exact fun hr => h ⟨hlt, hr⟩
      obtain ⟨pre, c, hpre, hfit, hlong⟩ := ih _ hrest
      rw [sigFramer.rest_append] at hfit
      rw [append_assoc] at hlong
      exact ⟨chunk :: pre, c, (prefix_cons_inj chunk).mpr hpre, ⟨hlt, hfit⟩, hlong⟩
    · refine ⟨[], chunk, ⟨chunks, rfl⟩, trivial, ?_⟩
      rw [flatten_nil, append_nil]
      omega

/-! ## 4. Framing, exactly -/

/-- Framing is right for a sequence of chunks, whatever the handler does: encoded messages reach
    `do_req` one by one up to the first close; after every call the handler has been given the
    frames of the bytes received so far, wherever they were cut; and, unless the connection was
    closed, the buffer holds no complete frame. -/
def SigFramingCorrect (initBuffSize : Nat) (chunks : List (List UInt8)) : Prop :=
  ∀ (σ : Type) (doReq : DoReq σ) (st : σ),
    (∀ ms : List SigMsg, (ms.map SigMsg.encode).flatten = chunks.flatten →
      (deliverAll doReq initBuffSize st chunks).calls =
        (serve (handle doReq) st (ms.map SigMsg.received)).2.1) ∧
    ∀ pre, pre <+: chunks →
      (deliverAll doReq initBuffSize st pre).calls =
        (serve (handle doReq) st (sigFramer.frames pre.flatten)).2.1 ∧
      ((deliverAll doReq initBuffSize st pre).closed = false →
        sigNext (deliverAll doReq initBuffSize st pre).buff.contents = none)

theorem sigFramingCorrect_of_fits (initBuffSize : Nat)
    (h : Fits [] chunks) : SigFramingCorrect initBuffSize chunks := by
  intro σ doReq st
  refine ⟨fun ms hms => ?_, fun pre hpre => ?_⟩
  · have ht := deliverAll_tracks doReq initBuffSize st h
    have hc := ht.calls
    rw [← hms, (frames_encode ms).1, nil_append] at hc
    exact hc
  · have ht := deliverAll_tracks doReq initBuffSize st (h.of_prefix hpre)
    refine ⟨ht.calls, fun hopen => ?_⟩
    rw [closed_of_tracks ht] at hopen
    rw [ht.buff hopen]
    exact sigFramer.next_rest _

theorem fits_of_sigFramingCorrect {initBuffSize : Nat}
    (hok : SigFramingCorrect initBuffSize chunks) : Fits [] chunks := by
  by_contra hfit
  obtain ⟨pre, chunk, hpre, hfits, hlong⟩ := exists_first_long [] hfit
  -- a handler that never closes, up to the call on the long buffer
  let doReq : DoReq Unit := fun _ _ _ => ((), 0)
  have hgo : ∀ st h b, (doReq st h b).2 ≠ RECV_CLOSE := fun _ _ _ => by decide
  have ht := deliverAll_tracks doReq initBuffSize () hfits
  have hopen : (deliverAll doReq initBuffSize () pre).closed = false := by
    rw [closed_of_tracks ht]
    exact serve_go (fun _ _ => rfl) _ _
  have hb := ht.buff (serve_go (fun _ _ => rfl) _ _)
  have hlast : deliverAll doReq initBuffSize () (pre ++ [chunk]) =
      deliver doReq initBuffSize (deliverAll doReq initBuffSize () pre) chunk := by
    unfold deliverAll
    rw [foldl_append]
    rfl
  obtain ⟨hne, hleft⟩ := svcRecv_long hgo
    (c := { deliverAll doReq initBuffSize () pre with
      buff := mybuffSetdata initBuffSize (deliverAll doReq initBuffSize () pre).buff chunk })
    (by rw [Mybuff.contents_setdata, hb]; exact hlong)
  have hbad := (hok Unit doReq ()).2 (pre ++ [chunk]) hpre |>.2
  rw [hlast, deliver_open chunk hopen] at hbad
  exact hleft (hbad (beq_eq_false_iff_ne.mpr hne))

/-- **Signalling framing is right exactly as long as no call finds `2^31` buffered bytes.** -/
theorem sigFraming_iff (initBuffSize : Nat) (chunks : List (List UInt8)) :
    SigFramingCorrect initBuffSize chunks ↔ Fits [] chunks :=
  ⟨fits_of_sigFramingCorrect, sigFramingCorrect_of_fits initBuffSize⟩

/-- `2^29` empty messages that arrive between two calls: the length is negative as an `int`. -/
theorem sigFraming_fails_on_long_burst :
    ¬ SigFramingCorrect 65536
      [((List.replicate (2 ^ 29) (SigMsg.mk 0 0 [] (by decide))).map SigMsg.encode).flatten] := by
  intro hok
  have hlt := (fits_of_sigFramingCorrect hok).1
  have he : (SigMsg.mk 0 0 [] (by decide)).encode.length = 4 := by decide
  rw [nil_append, map_replicate, length_flatten, map_replicate, sum_replicate_nat, he] at hlt
  exact absurd hlt (by decide)

end Pfs
