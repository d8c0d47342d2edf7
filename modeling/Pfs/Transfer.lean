/-
  Receiving a file: the RECVFILEING branch of `svc_recv`, the same code in
  network/D/pfs_data.c and network/U/pfs_up.c.

  The missing length is a 64-bit difference stored in an `int` and compared with a `size_t`; the
  result of `write` is an `int` as well; and the digest is updated through the `data` pointer
  after the bytes have been consumed.

  Main result: `recvExact_iff`.
-/
import Pfs.Lib.CInt
import Pfs.Md5

namespace Pfs

open Lib List

/-! ## 1. One call -/

/-- A file that is being received: `task->sub.processlen`, `task->sub.lastlen`, the digest
    context of the connection and what `local_in_fd` holds. -/
structure Incoming (C : Type) where
  processlen : Int
  lastlen : Int
  ctx : C
  file : List UInt8

/-- What a call did: nothing was buffered, `write` failed, the file is not complete yet, or it
    is. -/
inductive FileRet where
  | noData
  | writeErr
  | more
  | complete
  deriving DecidableEq, Repr

/-- `int remainlen = processlen - lastlen;
    datalen = datalen <= remainlen ? datalen : remainlen;` -/
def takeLen (missing : Int) (datalen : Nat) : Nat :=
  let remainlen := toInt32 missing
  if datalen ≤ toSize remainlen then datalen else toSize remainlen

section Call

variable {C : Type} (D : IncDigest C) (write : Nat → Int)

/-- The branch from the result `w` of `write` on. The conversion to `int n` comes first; `data`
    still points to the start of the block when the digest is updated. -/
def afterWrite (b : Mybuff) (x : Incoming C) (data : List UInt8) (w : Int) :
    FileRet × Mybuff × Incoming C :=
  let n := toInt32 w
  let file := x.file ++ data.take w.toNat
  if n < 0 then (.writeErr, b, { x with file := file })
  else
    let b' := mybuffSkipdata b n.toNat
    let x' : Incoming C :=
      { x with
        file := file
        lastlen := x.lastlen + n
        ctx := D.update x.ctx (b'.view n.toNat) }
    (if x'.processlen ≤ x'.lastlen then .complete else .more, b', x')

/-- The RECVFILEING branch of `svc_recv` up to the completeness test. `write k` is what the
    `write` of `k` bytes returns. -/
def svcRecvFile (b : Mybuff) (x : Incoming C) : FileRet × Mybuff × Incoming C :=
  match mybuffGetdata b with
  | none => (.noData, b, x)
  | some data =>
    afterWrite D b x data (write (takeLen (x.processlen - x.lastlen) data.length))

end Call

def writeAll (k : Nat) : Int := k

/-! ## 2. How much a call takes -/

variable {R : Nat}

theorem takeLen_low (L : Nat) (h : R % 2 ^ 32 < 2 ^ 31) : takeLen R L = min L (R % 2 ^ 32) := by
  have hc : toInt32 (R : Int) = (R % 2 ^ 32 : Nat) := by
    rw [toInt32_low (by omega)]
    omega
  have hs : toSize ((R % 2 ^ 32 : Nat) : Int) = R % 2 ^ 32 := by
    rw [toSize_of_nonneg (by omega) (by omega)]
    omega
  unfold takeLen
  simp only [hc, hs]
  split <;> omega

/-- It is not: the `int` is negative, as a `size_t` it is huge, and everything is taken. -/
theorem takeLen_neg (L : Nat) (h : 2 ^ 31 ≤ R % 2 ^ 32) :
    takeLen R L = L ∨ 2 ^ 63 ≤ takeLen R L ∧ 2 ^ 63 ≤ L := by
  have hc : toInt32 (R : Int) = (R : Int) % 2 ^ 32 - 2 ^ 32 := toInt32_neg (by omega)
  have hs := toSize_of_neg (x := toInt32 (R : Int)) (by omega) (by omega)
  unfold takeLen
  simp only
  split
  · exact .inl rfl
  · exact .inr ⟨hs, by omega⟩

theorem takeLen_le (R L : Nat) : takeLen R L ≤ L := by
  unfold takeLen
  simp only
  split <;> omega

/-! ## 3. When a call does what it should -/

/-- A call with `L` buffered bytes and `R` missing ones takes them all, or what is missing. -/
def TakesAll (R L : Nat) : Prop :=
  R < 2 ^ 31 ∨ 2 ^ 31 ≤ R % 2 ^ 32 ∧ L < 2 ^ 31 ∨ R % 2 ^ 32 < 2 ^ 31 ∧ L ≤ R % 2 ^ 32

/-- It takes some of them; after that a multiple of `2^32` is missing. -/
def TakesSome (R L : Nat) : Prop :=
  2 ^ 32 ≤ R ∧ 0 < R % 2 ^ 32 ∧ R % 2 ^ 32 < 2 ^ 31 ∧ R % 2 ^ 32 < L ∧ L < R

instance (R L : Nat) : Decidable (TakesAll R L) := by unfold TakesAll; infer_instance
instance (R L : Nat) : Decidable (TakesSome R L) := by unfold TakesSome; infer_instance

/-- The demands on the number `d` of bytes taken: it survives the conversion to `int`, is at most
    what is missing, is not zero when something can be taken, and completes the file as soon as
    the missing bytes are there. -/
def CallOk (R L d : Nat) : Prop :=
  d < 2 ^ 31 ∧ d ≤ R ∧ (0 < L → 0 < d) ∧ (R ≤ L → R ≤ d)

theorem takeLen_of_takesAll {L : Nat} (h : TakesAll R L) : takeLen R L = min L R := by
  unfold TakesAll at h
  by_cases hlow : R % 2 ^ 32 < 2 ^ 31
  · rw [takeLen_low L hlow]
    omega
  rcases takeLen_neg L (R := R) (by omega) with he | hbig
  · rw [he]
    omega
  · omega

theorem callOk_iff {L : Nat} (hR : 0 < R) :
    CallOk R L (takeLen R L) ↔ TakesAll R L ∨ TakesSome R L := by
  unfold CallOk TakesAll TakesSome
  by_cases hlow : R % 2 ^ 32 < 2 ^ 31
  · rw [takeLen_low L hlow]
    omega
  rcases takeLen_neg L (R := R) (by omega) with he | hbig
  · rw [he]
    omega
  · omega

/-! ## 4. One call, on bytes -/

/-- One call on the buffer `b` is exact for a file of `P` bytes: what is written and what stays
    buffered are the bytes there were, in order; no byte beyond the file is written; something is
    written when something is buffered; and the call completes the file, with all of it written,
    exactly when its last byte is there. -/
structure ExactCall {C : Type} (P : Nat) (b : Mybuff) (x : Incoming C)
    (r : FileRet × Mybuff × Incoming C) : Prop where
  inOrder : r.2.2.file ++ r.2.1.contents = x.file ++ b.contents
  atMost : r.2.2.file.length ≤ P
  progress : b.contents ≠ [] → x.file.length < r.2.2.file.length
  completes : r.1 = .complete ↔ P ≤ (x.file ++ b.contents).length
  whole : r.1 = .complete → r.2.2.file.length = P

/-- The state between two calls: `lastlen` counts what has been written, and the file of `P`
    bytes is not complete. -/
structure Receiving {C : Type} (P : Nat) (x : Incoming C) : Prop where
  processlen : x.processlen = P
  lastlen : x.lastlen = x.file.length
  incomplete : x.file.length < P

section Exact

variable {C : Type} {D : IncDigest C} {P : Nat} {b : Mybuff} {x : Incoming C}

theorem svcRecvFile_noData (D : IncDigest C) (x : Incoming C) (hb : b.contents = []) :
    svcRecvFile D writeAll b x = (.noData, b, x) := by
  unfold svcRecvFile
  rw [b.getdata_eq, if_pos hb]

theorem Receiving.missing (h : Receiving P x) :
    x.processlen - x.lastlen = (P - x.file.length : Nat) := by
  have := h.incomplete
  rw [h.processlen, h.lastlen]
  omega

theorem svcRecvFile_some (D : IncDigest C) (h : Receiving P x) (hb : b.contents ≠ []) :
    svcRecvFile D writeAll b x = afterWrite D b x b.contents
      (takeLen (P - x.file.length : Nat) b.contents.length : Nat) := by
  unfold svcRecvFile writeAll
  rw [b.getdata_eq, if_neg hb]
  simp only [h.missing]

variable {d : Nat}

theorem afterWrite_takes (D : IncDigest C) (h : Receiving P x) (hd31 : d < 2 ^ 31) :
    afterWrite D b x b.contents d =
      (if P ≤ x.file.length + d then FileRet.complete else .more, mybuffSkipdata b d,
        { x with
          file := x.file ++ b.contents.take d
          lastlen := x.lastlen + d
          ctx := D.update x.ctx ((mybuffSkipdata b d).view d) }) := by
  have hn : toInt32 (d : Int) = d := toInt32_of_lt (Int.natCast_nonneg d) (by omega)
  have hcond : (x.processlen ≤ x.lastlen + d) = (P ≤ x.file.length + d) := by
    rw [h.processlen, h.lastlen]
    exact propext ⟨fun _ => by omega, fun _ => by omega⟩
  unfold afterWrite
  simp only [hn, Int.toNat_natCast, hcond]
  rw [if_neg (by omega)]

theorem afterWrite_lost (D : IncDigest C) (hle : d ≤ b.contents.length) (hpos : 0 < d)
    (hlost : toInt32 d < d) : (x.file ++ b.contents).length <
      ((afterWrite D b x b.contents d).2.2.file ++
        (afterWrite D b x b.contents d).2.1.contents).length := by
  have hfile : (x.file ++ b.contents.take d).length = x.file.length + d := by
    rw [length_append, length_take]
    omega
  unfold afterWrite
  simp only [Int.toNat_natCast]
  split
  · show _ < ((x.file ++ b.contents.take d) ++ b.contents).length
    rw [length_append, length_append, hfile]
    omega
  · rw [length_append, length_append, hfile, Mybuff.contents_skipdata, length_drop]
    omega

/-- **One call is exact exactly when its lengths fit.** -/
theorem exactCall_iff (h : Receiving P x) :
    ExactCall P b x (svcRecvFile D writeAll b x) ↔
      TakesAll (P - x.file.length) b.contents.length ∨
        TakesSome (P - x.file.length) b.contents.length := by
  have hinc := h.incomplete
  rw [← callOk_iff (by omega)]
  by_cases hb : b.contents = []
  · -- nothing is buffered, nothing happens
    rw [svcRecvFile_noData D x hb, hb]
    have h0 : takeLen (P - x.file.length : Nat) 0 = 0 := Nat.le_zero.mp (takeLen_le _ _)
    simp only [length_nil, h0]
    refine ⟨fun _ => ⟨by omega, by omega, by omega, by omega⟩, fun _ => ?_⟩
    have hlen : (x.file ++ b.contents).length = x.file.length := by rw [hb, append_nil]
    exact ⟨rfl, Nat.le_of_lt hinc, fun hne => absurd hb hne,
      ⟨fun hc => (by cases hc), fun hc => absurd hc (by omega)⟩, fun hc => (by cases hc)⟩
  by_cases hd31 : takeLen (P - x.file.length : Nat) b.contents.length < 2 ^ 31
  · have hpos : 0 < b.contents.length := length_pos_iff.mpr hb
    have hle := takeLen_le (P - x.file.length) b.contents.length
    rw [svcRecvFile_some D h hb, afterWrite_takes D h hd31]
    generalize takeLen (P - x.file.length : Nat) b.contents.length = d at hle hd31 ⊢
    unfold CallOk
    have hfile : (x.file ++ b.contents.take d).length = x.file.length + d := by
      rw [length_append, length_take]
      omega
    constructor
    · rintro ⟨-, hmost, hprog, hcomp, -⟩
      simp only [hfile] at hmost hprog
      rw [length_append] at hcomp
      refine ⟨hd31, by omega, fun _ => by have := hprog hb; omega, fun hRL => ?_⟩
      have hc := hcomp.mpr (by omega)
      by_contra hlt
      rw [if_neg (by omega)] at hc
      cases hc
    · rintro ⟨-, hR, hp, hcomp⟩
      refine ⟨?_, by rw [hfile]; omega, fun _ => by rw [hfile]; have := hp hpos; omega, ?_, ?_⟩
      · rw [Mybuff.contents_skipdata, append_assoc, take_append_drop]
      · rw [length_append]
        by_cases hc : P ≤ x.file.length + d
        · simp only [if_pos hc, true_iff]
          omega
        · simp only [if_neg hc]
          exact ⟨fun hf => (by cases hf), fun hle' => (by omega)⟩
      · intro hc
        by_cases hP : P ≤ x.file.length + d
        · rw [hfile]
          omega
        · simp only [if_neg hP] at hc
          cases hc
  · -- too many bytes for an `int`
    have hlost := afterWrite_lost (x := x) D (takeLen_le (P - x.file.length) b.contents.length)
      (by omega) (toInt32_lt_self (Nat.le_of_not_lt hd31))
    rw [svcRecvFile_some D h hb]
    refine ⟨fun he => ?_, fun hok => absurd hok.1 hd31⟩
    rw [he.inOrder] at hlost
    exact absurd hlost (Nat.lt_irrefl _)

theorem svcRecvFile_state (D : IncDigest C) (h : Receiving P x)
    (hd : takeLen (P - x.file.length : Nat) b.contents.length = d) (hd31 : d < 2 ^ 31) :
    (svcRecvFile D writeAll b x).2.2.file = x.file ++ b.contents.take d ∧
      (svcRecvFile D writeAll b x).2.1.contents = b.contents.drop d ∧
      (x.file.length + d < P → Receiving P (svcRecvFile D writeAll b x).2.2 ∧
        (svcRecvFile D writeAll b x).1 ≠ .complete) := by
  have hle : d ≤ b.contents.length := hd ▸ takeLen_le _ _
  by_cases hb : b.contents = []
  · have h0 : d = 0 := by
      rw [hb] at hle
      exact Nat.le_zero.mp hle
    subst h0
    rw [svcRecvFile_noData D x hb]
    exact ⟨by simp, by simp, fun _ => ⟨h, fun hc => by cases hc⟩⟩
  · rw [svcRecvFile_some D h hb, hd, afterWrite_takes D h hd31]
    refine ⟨rfl, Mybuff.contents_skipdata b d, fun hlt => ⟨⟨h.processlen, ?_, ?_⟩, ?_⟩⟩
    · simp only [h.lastlen, length_append, length_take, Nat.min_eq_left hle]
      omega
    · simp only [length_append, length_take, Nat.min_eq_left hle]
      exact hlt
    · simp only [if_neg (Nat.not_le.mpr hlt)]
      exact fun hc => by cases hc

theorem next_of_takesAll (D : IncDigest C) (h : Receiving P x)
    (ht : TakesAll (P - x.file.length) b.contents.length)
    (hinc : b.contents.length < P - x.file.length) :
    Receiving P (svcRecvFile D writeAll b x).2.2 ∧
      (svcRecvFile D writeAll b x).1 ≠ .complete ∧
      (svcRecvFile D writeAll b x).2.1.contents = [] ∧
      (svcRecvFile D writeAll b x).2.2.file = x.file ++ b.contents := by
  have hd : takeLen (P - x.file.length : Nat) b.contents.length = b.contents.length := by
    rw [takeLen_of_takesAll ht]
    omega
  have hok := (callOk_iff (by omega)).mpr (.inl ht)
  rw [hd] at hok
  obtain ⟨hfile, hcont, hnext⟩ := svcRecvFile_state D h hd hok.1
  obtain ⟨hrec, hne⟩ := hnext (by omega)
  exact ⟨hrec, hne, by rw [hcont, drop_length], by rw [hfile, take_length]⟩

/-- After a call that takes only some of what is buffered, a multiple of `2^32` bytes is missing
    and bytes are buffered: the next call takes nothing. -/
theorem stuck_of_takesSome (D : IncDigest C) (h : Receiving P x)
    (ht : TakesSome (P - x.file.length) b.contents.length) (initBuffSize : Nat)
    (chunk : List UInt8) :
    (svcRecvFile D writeAll b x).1 ≠ .complete ∧
    ¬ ExactCall P (mybuffSetdata initBuffSize (svcRecvFile D writeAll b x).2.1 chunk)
      (svcRecvFile D writeAll b x).2.2
      (svcRecvFile D writeAll (mybuffSetdata initBuffSize (svcRecvFile D writeAll b x).2.1 chunk)
        (svcRecvFile D writeAll b x).2.2) := by
  obtain ⟨hbig, hpos, hlow, hlt, hL⟩ := ht
  have hd : takeLen (P - x.file.length : Nat) b.contents.length =
      (P - x.file.length) % 2 ^ 32 := by
    rw [takeLen_low _ hlow]
    omega
  obtain ⟨hfile, hcont, hnext⟩ := svcRecvFile_state D h hd hlow
  obtain ⟨hrec, hne⟩ := hnext (by omega)
  refine ⟨hne, ?_⟩
  rw [exactCall_iff hrec, hfile, Mybuff.contents_setdata, hcont, ← callOk_iff]
  · intro hok
    have hlen : (x.file ++ b.contents.take ((P - x.file.length) % 2 ^ 32)).length =
        x.file.length + (P - x.file.length) % 2 ^ 32 := by
      rw [length_append, length_take]
      omega
    have hR : (P - (x.file.length + (P - x.file.length) % 2 ^ 32)) % 2 ^ 32 = 0 := by omega
    rw [hlen] at hok
    have hprog := hok.2.2.1
    rw [takeLen_low _ (by omega), hR, length_append, length_drop] at hprog
    omega
  · rw [← hfile]
    have := hrec.incomplete
    omega

end Exact

/-! ## 5. All chunks of a file -/

section Chunks

variable {C : Type} (D : IncDigest C) (initBuffSize P : Nat)

/-- Reception of a file of `P` bytes is exact: every call is, up to the one that completes it. -/
def RecvExact : Mybuff → Incoming C → List (List UInt8) → Prop
  | _, _, [] => True
  | b, x, chunk :: chunks =>
    let b := mybuffSetdata initBuffSize b chunk
    let r := svcRecvFile D writeAll b x
    ExactCall P b x r ∧ (r.1 ≠ .complete → RecvExact r.2.1 r.2.2 chunks)

/-- The lengths of the chunks fit, with `R` bytes missing and `B` bytes buffered before them:
    every call takes all it can; the last one may leave some. -/
def RecvFits : Nat → Nat → List Nat → Prop
  | _, _, [] => True
  | R, B, len :: lens =>
    TakesAll R (B + len) ∧ (B + len < R → RecvFits (R - (B + len)) 0 lens) ∨
      TakesSome R (B + len) ∧ lens = []

/-- The start of a file: nothing written, the receive buffer as the request left it. -/
def Incoming.start (P : Nat) (ctx : C) : Incoming C := ⟨P, 0, ctx, []⟩

variable {D initBuffSize P}

theorem recvExact_iff_of_receiving {b : Mybuff} {x : Incoming C} (h : Receiving P x)
    (chunks : List (List UInt8)) :
    RecvExact D initBuffSize P b x chunks ↔
      RecvFits (P - x.file.length) b.contents.length (chunks.map List.length) := by
  induction chunks generalizing b x with
  | nil => exact Iff.rfl
  | cons chunk chunks ih =>
    have hinc := h.incomplete
    have hset : (mybuffSetdata initBuffSize b chunk).contents.length =
        b.contents.length + chunk.length := by
      rw [Mybuff.contents_setdata, length_append]
    rw [RecvExact, map_cons, RecvFits, exactCall_iff h, hset]
    generalize mybuffSetdata initBuffSize b chunk = b₁ at hset ⊢
    rw [← hset]
    by_cases hall : TakesAll (P - x.file.length) b₁.contents.length
    · have hnot : ¬ TakesSome (P - x.file.length) b₁.contents.length := by
        unfold TakesAll at hall
        unfold TakesSome
        omega
      simp only [hall, hnot, true_and, false_and, or_false]
      by_cases hlt : b₁.contents.length < P - x.file.length
      · -- the file goes on: the next call starts with an empty buffer
        obtain ⟨hrec, hne, hcont, hfile⟩ := next_of_takesAll D h hall hlt
        have hR : P - (x.file ++ b₁.contents).length = P - x.file.length - b₁.contents.length := by
          rw [length_append]
          omega
        simp only [hne, hlt, ne_eq, not_false_eq_true, true_implies]
        rw [ih hrec, hcont, hfile, hR, length_nil]
      · -- its last byte is there: the call completes it
        have hcomp := ((exactCall_iff (D := D) h).mpr (.inl hall)).completes.mpr (by
          rw [length_append]
          omega)
        simp only [hcomp, hlt, ne_eq, not_true_eq_false, false_implies]
    · simp only [hall, false_or, false_and]
      by_cases hsome : TakesSome (P - x.file.length) b₁.contents.length
      · simp only [hsome, true_and]
        have hstuck := stuck_of_takesSome D h hsome initBuffSize
        cases chunks with
        | nil => simp [RecvExact]
        | cons c cs =>
          obtain ⟨hne, hnot⟩ := hstuck c
          simp [RecvExact, hne, hnot]
      · simp only [hsome, false_and]

end Chunks

/-- **Reception of a file is exact exactly when the lengths of its chunks fit**: for every size,
    every receive buffer at the start, every digest and every sequence of chunks. -/
theorem recvExact_iff {C : Type} (D : IncDigest C) (initBuffSize : Nat) (ctx : C) (b : Mybuff)
    (P : Nat) (hP : 0 < P) (chunks : List (List UInt8)) :
    RecvExact D initBuffSize P b (.start P ctx) chunks ↔
      RecvFits P b.contents.length (chunks.map List.length) :=
  recvExact_iff_of_receiving ⟨rfl, rfl, hP⟩ chunks

/-- A file of one byte that is there when it is asked for. -/
theorem recvExact_of_one_byte :
    RecvExact md5 20480 1 mybuffInit (.start 1 md5.init) [[7]] :=
  (recvExact_iff md5 20480 md5.init mybuffInit 1 (by decide) [[7]]).mpr
    (.inl ⟨.inl (by decide), fun h => absurd h (by decide)⟩)

/-- A file of `2^32` bytes: the missing length is zero as an `int`, and the first byte is never
    taken. -/
theorem recvExact_fails_at_four_gigabytes :
    ¬ RecvExact md5 20480 (2 ^ 32) mybuffInit (.start (2 ^ 32) md5.init) [[7]] := by
  rw [recvExact_iff_of_receiving ⟨rfl, rfl, by decide⟩]
  rintro (⟨hall, -⟩ | ⟨hsome, -⟩)
  · exact absurd hall (by decide)
  · exact absurd hsome (by decide)

end Pfs
