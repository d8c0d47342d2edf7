/-
  The frame of the signalling and data protocol (lib/protocol.c).

  A frame is a 4-byte head (body length in network order, command, status) and the body.
  `parseSigMsg` is given the length of what has been received as an `int`.

  Main results: `frames_encode`, `next_of_long`.
-/
import Pfs.Lib.CInt
import Pfs.Lib.Frames
import Pfs.Mybuff

namespace Pfs

open Lib List

/-! ## 1. Codes -/

def SIG_HEADSIZE : Nat := 4
def MAX_SIG_BODY : Nat := 65536

def RECV_CLOSE : Nat := 0x01
def RECV_ADD_EPOLLIN : Nat := 0x02
def RECV_ADD_EPOLLOUT : Nat := 0x04
def RECV_SEND : Nat := 0x08

/-- Results of `parse_sig_msg`: `E_PRO_OK`, `E_PRO_HEAD_LEN`, `E_PRO_TOTAL_LEN` and
    `E_PACKET_ERR_CLOSE`. -/
inductive ParseRet where
  | ok
  | headLen
  | totalLen
  | errClose
  deriving DecidableEq, Repr

/-- `t_pfs_sig_head`, the body length in host order. -/
structure SigHead where
  bodylen : Nat
  cmdid : UInt8
  status : UInt8
  deriving DecidableEq, Repr, Inhabited

/-! ## 2. Encoder and decoder -/

/-- `memcpy(h, s, sizeof(t_pfs_sig_head))` and `ntohs`. -/
def headOf : List UInt8 → SigHead
  | b0 :: b1 :: c :: st :: _ => ⟨b0.toNat * 256 + b1.toNat, c, st⟩
  | _ => default

/-- `parse_sig_msg`: `b` is the body buffer the caller passes in, `s` the received bytes and
    `slen` their number, converted to `int` by the call. -/
def parseSigMsg (b s : List UInt8) (slen : Int) : ParseRet × SigHead × List UInt8 :=
  if slen < SIG_HEADSIZE then (.headLen, default, b)
  else
    let h := headOf s
    if MAX_SIG_BODY ≤ h.bodylen then (.errClose, h, b)
    else if slen < SIG_HEADSIZE + h.bodylen then (.totalLen, h, b)
    else if slen = SIG_HEADSIZE then (.ok, h, b)
    else (.ok, h, copyAt b 0 ((s.drop SIG_HEADSIZE).take h.bodylen))

/-- The head of a frame as it goes over the wire. -/
def headBytes (bodylen : Nat) (cmdid status : UInt8) : List UInt8 :=
  [UInt8.ofNat (bodylen / 256), UInt8.ofNat bodylen, cmdid, status]

/-- `create_sig_msg`: `bodylen` is a `uint16_t`. -/
def createSigMsg (cmdid status : UInt8) (b : List UInt8) (bodylen : Nat) : List UInt8 :=
  let n := bodylen % 2 ^ 16
  headBytes n cmdid status ++ b.take n

/-- The zeroed body buffer of the signalling services' `check_req`. -/
def zeroBody : List UInt8 := List.replicate MAX_SIG_BODY 0

/-- The body buffer a handler sees: the body bytes followed by zeros. -/
def paddedBody (body : List UInt8) : List UInt8 := copyAt zeroBody 0 body

theorem paddedBody_eq (body : List UInt8) :
    paddedBody body = body ++ List.replicate (MAX_SIG_BODY - body.length) 0 := by
  simp [paddedBody, copyAt, zeroBody]

@[simp] theorem paddedBody_nil : paddedBody [] = zeroBody := by
  simp [paddedBody_eq, zeroBody]

theorem headOf_bodylen_lt (s : List UInt8) : (headOf s).bodylen < MAX_SIG_BODY := by
  unfold headOf MAX_SIG_BODY
  split
  · rename_i b0 b1 _ _ _
    have h0 := b0.toNat_lt
    have h1 := b1.toNat_lt
    simp only
    omega
  · decide

variable {s r : List UInt8} {m : SigHead × List UInt8}

theorem headOf_append (x : List UInt8) (h : SIG_HEADSIZE ≤ s.length) :
    headOf (s ++ x) = headOf s := by
  match s, h with
  | _ :: _ :: _ :: _ :: _, _ => rfl

theorem headOf_headBytes {n : Nat} (hn : n < MAX_SIG_BODY) (cmdid status : UInt8) (x : List UInt8) :
    headOf (headBytes n cmdid status ++ x) = ⟨n, cmdid, status⟩ := by
  unfold MAX_SIG_BODY at hn
  simp only [headBytes, cons_append, headOf, UInt8.toNat_ofNat', SigHead.mk.injEq, and_true]
  omega

/-! ## 3. The format as a stream decoder -/

/-- The first complete frame of a buffer, as a handler is given it, and what follows it. -/
def sigNext (s : List UInt8) : Option ((SigHead × List UInt8) × List UInt8) :=
  if s.length < SIG_HEADSIZE + (headOf s).bodylen then none
  else if s.length < SIG_HEADSIZE then none
  else some ((headOf s, paddedBody ((s.drop SIG_HEADSIZE).take (headOf s).bodylen)),
    s.drop (SIG_HEADSIZE + (headOf s).bodylen))

theorem sigNext_some (h : sigNext s = some (m, r)) :
    SIG_HEADSIZE + (headOf s).bodylen ≤ s.length ∧ r = s.drop (SIG_HEADSIZE + (headOf s).bodylen) ∧
      m = (headOf s, paddedBody ((s.drop SIG_HEADSIZE).take (headOf s).bodylen)) := by
  unfold sigNext at h
  split at h
  · cases h
  rename_i hl
  split at h
  · cases h
  · cases h
    exact ⟨by omega, rfl, rfl⟩

theorem sigNext_shrink (h : sigNext s = some (m, r)) : r.length < s.length := by
  obtain ⟨hl, rfl, -⟩ := sigNext_some h
  unfold SIG_HEADSIZE at *
  rw [length_drop]
  omega

theorem sigNext_stable (x : List UInt8)
    (h : sigNext s = some (m, r)) : sigNext (s ++ x) = some (m, r ++ x) := by
  obtain ⟨hl, rfl, rfl⟩ := sigNext_some h
  have hh : headOf (s ++ x) = headOf s := headOf_append x (by omega)
  have h1 : (s ++ x).drop (SIG_HEADSIZE + (headOf s).bodylen) =
      s.drop (SIG_HEADSIZE + (headOf s).bodylen) ++ x := drop_append_of_le_length hl
  have h2 : ((s ++ x).drop SIG_HEADSIZE).take (headOf s).bodylen =
      (s.drop SIG_HEADSIZE).take (headOf s).bodylen := by
    rw [drop_append_of_le_length (by omega), take_append_of_le_length]
    rw [length_drop]
    omega
  have n1 : ¬ (s ++ x).length < SIG_HEADSIZE + (headOf s).bodylen := by
    rw [length_append]
    omega
  have n2 : ¬ (s ++ x).length < SIG_HEADSIZE := by omega
  unfold sigNext
  rw [hh, if_neg n1, if_neg n2, h1, h2]

/-- **The frame format**, for the chunk rules of `Lib.Framer`. -/
def sigFramer : Framer UInt8 (SigHead × List UInt8) where
  next := sigNext
  shrink := sigNext_shrink
  stable := sigNext_stable

theorem next_of_long (h : SIG_HEADSIZE + MAX_SIG_BODY ≤ s.length) :
    ∃ m r, sigNext s = some (m, r) := by
  have hb := headOf_bodylen_lt s
  unfold sigNext
  rw [if_neg (by omega), if_neg (by omega)]
  exact ⟨_, _, rfl⟩

/-! ## 4. Messages -/

/-- A message whose length fits the header. -/
structure SigMsg where
  cmdid : UInt8
  status : UInt8
  body : List UInt8
  body_le : body.length ≤ 65535

namespace SigMsg

/-- The frame `create_sig_msg` writes for the message. -/
def encode (m : SigMsg) : List UInt8 := createSigMsg m.cmdid m.status m.body m.body.length

/-- What the receiver's handler is given for it. -/
def received (m : SigMsg) : SigHead × List UInt8 :=
  (⟨m.body.length, m.cmdid, m.status⟩, paddedBody m.body)

theorem encode_eq (m : SigMsg) :
    m.encode = headBytes m.body.length m.cmdid m.status ++ m.body := by
  have h : m.body.length % 2 ^ 16 = m.body.length := Nat.mod_eq_of_lt (by have := m.body_le; omega)
  simp only [encode, createSigMsg, h, take_length]

end SigMsg

theorem sigNext_encode (m : SigMsg) (x : List UInt8) :
    sigNext (m.encode ++ x) = some (m.received, x) := by
  have hb := m.body_le
  have hn : m.body.length < MAX_SIG_BODY := by unfold MAX_SIG_BODY; omega
  have hh := headOf_headBytes hn m.cmdid m.status (m.body ++ x)
  have hd : (headBytes m.body.length m.cmdid m.status ++ (m.body ++ x)).drop SIG_HEADSIZE =
      m.body ++ x := rfl
  have hl : (headBytes m.body.length m.cmdid m.status ++ (m.body ++ x)).length =
      SIG_HEADSIZE + m.body.length + x.length := by
    simp only [headBytes, length_append, length_cons, length_nil, SIG_HEADSIZE]
    omega
  rw [m.encode_eq, append_assoc]
  unfold sigNext
  rw [hh]
  simp only
  rw [if_neg (by omega), if_neg (by omega), ← drop_drop, hd]
  simp [SigMsg.received]

/-- **Decoding inverts encoding**: the frames of a concatenation of encoded messages are the
    messages, and nothing is left over. -/
theorem frames_encode (ms : List SigMsg) :
    sigFramer.frames (ms.map SigMsg.encode).flatten = ms.map SigMsg.received ∧
      sigFramer.rest (ms.map SigMsg.encode).flatten = [] := by
  induction ms with
  | nil => exact ⟨rfl, rfl⟩
  | cons m ms ih =>
    have h : sigFramer.next (m.encode ++ (ms.map SigMsg.encode).flatten) =
        some (m.received, (ms.map SigMsg.encode).flatten) := sigNext_encode m _
    rw [map_cons, flatten_cons, map_cons]
    exact ⟨by rw [sigFramer.frames_of_some h, ih.1], by rw [sigFramer.rest_of_some h, ih.2]⟩

/-! ## 5. The decoder against the format -/

/-- `parse_sig_msg` without the test that never fails: `bodylen` is below `MAX_SIG_BODY`. -/
theorem parseSigMsg_eq (b s : List UInt8) (slen : Int) :
    parseSigMsg b s slen =
      if slen < SIG_HEADSIZE then (.headLen, default, b)
      else if slen < SIG_HEADSIZE + (headOf s).bodylen then (.totalLen, headOf s, b)
      else if slen = SIG_HEADSIZE then (.ok, headOf s, b)
      else (.ok, headOf s, copyAt b 0 ((s.drop SIG_HEADSIZE).take (headOf s).bodylen)) := by
  have hb := headOf_bodylen_lt s
  simp only [parseSigMsg, if_neg (Nat.not_le.mpr hb)]

theorem parse_ok {b s : List UInt8} {slen : Int} (h : (parseSigMsg b s slen).1 = .ok) :
    ¬ slen < SIG_HEADSIZE ∧ ¬ slen < SIG_HEADSIZE + (headOf s).bodylen := by
  rw [parseSigMsg_eq] at h
  split at h
  · cases h
  rename_i h4
  refine ⟨h4, fun ht => ?_⟩
  rw [if_pos ht] at h
  cases h

/-- With fewer than `2^31` bytes buffered, a call that finds a frame finds the format's frame. -/
theorem parse_some (hs : s.length < 2 ^ 31) (h : sigNext s = some (m, r)) :
    parseSigMsg zeroBody s (toInt32 s.length) = (.ok, m.1, m.2) ∧
      r = s.drop (m.1.bodylen + SIG_HEADSIZE) := by
  obtain ⟨hl, rfl, rfl⟩ := sigNext_some h
  have hc : toInt32 (s.length : Int) = s.length := toInt32_of_lt (by omega) (by omega)
  refine ⟨?_, by simp only; rw [Nat.add_comm]⟩
  rw [parseSigMsg_eq, hc, if_neg (by omega), if_neg (by omega)]
  by_cases h4 : (s.length : Int) = SIG_HEADSIZE
  · -- a bare head: nothing is copied, and the body is empty
    have h0 : (headOf s).bodylen = 0 := by omega
    rw [if_pos h4, h0]
    simp
  · rw [if_neg h4]
    rfl

theorem parse_ne_errClose (b s : List UInt8) (slen : Int) :
    (parseSigMsg b s slen).1 ≠ .errClose := by
  rw [parseSigMsg_eq]
  split
  · exact ParseRet.noConfusion
  split
  · exact ParseRet.noConfusion
  · split <;> exact ParseRet.noConfusion

theorem parse_ok_le (b s : List UInt8) (slen : Int) (h : (parseSigMsg b s slen).1 = .ok) :
    ((parseSigMsg b s slen).2.1.bodylen + SIG_HEADSIZE : Int) ≤ slen := by
  obtain ⟨h4, ht⟩ := parse_ok h
  rw [parseSigMsg_eq, if_neg h4, if_neg ht]
  split <;> (simp only; omega)

theorem sigNext_of_parse_ok {s : List UInt8} {slen : Int} (hle : slen ≤ s.length)
    (h : (parseSigMsg zeroBody s slen).1 = .ok) :
    sigNext s = some ((parseSigMsg zeroBody s slen).2,
      s.drop ((parseSigMsg zeroBody s slen).2.1.bodylen + SIG_HEADSIZE)) := by
  obtain ⟨h4, ht⟩ := parse_ok h
  rw [parseSigMsg_eq, if_neg h4, if_neg ht]
  unfold sigNext
  rw [if_neg (by omega), if_neg (by omega)]
  by_cases hbare : slen = SIG_HEADSIZE
  · -- a bare head: nothing is copied, and the body is empty
    have h0 : (headOf s).bodylen = 0 := by omega
    rw [if_pos hbare]
    simp [h0]
  · rw [if_neg hbare]
    simp only [paddedBody, Nat.add_comm]

theorem parse_none (b : List UInt8) (hs : s.length < 2 ^ 31) (h : sigNext s = none) :
    (parseSigMsg b s (toInt32 s.length)).1 = .headLen ∨
      (parseSigMsg b s (toInt32 s.length)).1 = .totalLen := by
  have hc : toInt32 (s.length : Int) = s.length := toInt32_of_lt (by omega) (by omega)
  rw [parseSigMsg_eq, hc]
  by_cases h4 : s.length < SIG_HEADSIZE
  · left
    rw [if_pos (by omega)]
  right
  have hn : s.length < SIG_HEADSIZE + (headOf s).bodylen := by
    unfold sigNext at h
    by_contra hc
    rw [if_neg hc, if_neg h4] at h
    cases h
  rw [if_neg (by omega), if_pos (by omega)]

end Pfs
