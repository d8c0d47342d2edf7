/-
  The streamed digest of a received file against the digest of the file, over all
  files of one connection (`svc_recv` and `close_tmp_check_mv`).

  The digest context belongs to the connection: `MD5Init` runs when the connection is accepted,
  `MD5Final` after each file, and nothing in between. The digest that is compared has 16 bytes,
  the comparison reads 17: `behind` is the byte that follows on the stack.

  Main results: `streamDigest_agrees`, `streamDigest_disagrees`.
-/
import Pfs.Localfile
import Pfs.Transfer

namespace Pfs

open Lib List

/-! ## 1. The files of a connection -/

/-- A file that arrives: its record, the size to receive, the receive buffer when it starts, the
    chunks, and what the system does at its end. -/
structure Arrival where
  base : TaskBase
  processlen : Int
  start : Mybuff
  chunks : List (List UInt8)
  localInFd : Nat
  /-- the byte behind `omd5[16]` -/
  behind : UInt8
  /-- the temporary file can be read back -/
  readable : Bool
  fs : FsEnv

/-- The end of a file: what was written, the announced digest, whether the fast branch was taken
    and what `close_tmp_check_mv` returned. -/
structure Ended where
  file : List UInt8
  filemd5 : List UInt8
  fast : Bool
  ret : LocalRet
  deriving DecidableEq

section Session

variable {C : Type} (D : IncDigest C) (initBuffSize : Nat)

/-- Calls of `svc_recv`, one for each chunk, until the file is complete. -/
def receiveFile : Mybuff → Incoming C → List (List UInt8) → Option (Incoming C)
  | _, _, [] => none
  | b, x, chunk :: chunks =>
    let r := svcRecvFile D writeAll (mybuffSetdata initBuffSize b chunk) x
    if r.1 = .complete then some r.2.2 else receiveFile r.2.1 r.2.2 chunks

/-- The end of `svc_recv` for a complete file: `MD5Final` and `close_tmp_check_mv`. The re-read of
    the slow branch gives the digest of what was written. -/
def endFile (a : Arrival) (x : Incoming C) : Ended :=
  let omd5 := (D.final x.ctx).1 ++ [a.behind]
  let e := { a.fs with filemd5 := if a.readable then some (D.digest x.file) else none }
  { file := x.file
    filemd5 := a.base.filemd5
    fast := omd5 == a.base.filemd5
    ret := (closeTmpCheckMv e a.base a.localInFd omd5).1 }

/-- The files of a connection. After a file that was not accepted the connection has no task and
    is closed by the next call. -/
def session : C → List Arrival → List Ended
  | _, [] => []
  | ctx, a :: as =>
    match receiveFile D initBuffSize a.start ⟨a.processlen, 0, ctx, []⟩ a.chunks with
    | none => []
    | some x =>
      let o := endFile D a x
      o :: if o.ret = .ok then session (D.final x.ctx).2 as else []

end Session

/-! ## 2. What is absorbed -/

/-- No call finds more bytes than the file is missing, nor `2^31` of them: `R` bytes missing, `B`
    bytes buffered, the lengths of the chunks. -/
def CleanCalls : Int → Nat → List Nat → Prop
  | _, _, [] => True
  | R, B, len :: lens =>
    ((B + len : Nat) : Int) ≤ R ∧ B + len < 2 ^ 31 ∧ CleanCalls (R - (B + len : Nat)) 0 lens

section Absorb

variable {C : Type} {D : IncDigest C} {initBuffSize P : Nat} {b : Mybuff} {x : Incoming C}

theorem receiveFile_stuck (h : Receiving P x) (hz : (P - x.file.length) % 2 ^ 32 = 0)
    (chunks : List (List UInt8)) : receiveFile D initBuffSize b x chunks = none := by
  induction chunks generalizing b x with
  | nil => rfl
  | cons chunk chunks ih =>
    have hinc := h.incomplete
    have hd : takeLen (P - x.file.length : Nat) (mybuffSetdata initBuffSize b chunk).contents.length
        = 0 := by
      rw [takeLen_low _ (by omega), hz, Nat.min_zero]
    obtain ⟨hfile, -, hnext⟩ := svcRecvFile_state D h hd (by omega)
    obtain ⟨hrec, hne⟩ := hnext (by omega)
    rw [take_zero, append_nil] at hfile
    rw [receiveFile]
    simp only [if_neg hne]
    exact ih hrec (by rw [hfile]; exact hz)

theorem receiveFile_empty (hp : x.processlen ≤ 0) {chunks : List (List UInt8)}
    (hclean : CleanCalls x.processlen b.contents.length (chunks.map List.length)) :
    receiveFile D initBuffSize b x chunks = none := by
  induction chunks generalizing b with
  | nil => rfl
  | cons chunk chunks ih =>
    obtain ⟨hle, -, hrest⟩ := hclean
    have hzero : b.contents.length + chunk.length = 0 := by omega
    have hnil : (mybuffSetdata initBuffSize b chunk).contents = [] := by
      rw [← length_eq_zero_iff, Mybuff.contents_setdata, length_append, hzero]
    rw [receiveFile, svcRecvFile_noData D x hnil]
    rw [hzero, Int.ofNat_zero, Int.sub_zero] at hrest
    exact ih (by rw [hnil]; exact hrest)

/-- **One clean call absorbs what it writes**, and the file goes on, is complete, or is stuck. -/
theorem clean_call (h : Receiving P x) (hctx : x.ctx = D.after x.file)
    (hle : b.contents.length ≤ P - x.file.length) (hlt : b.contents.length < 2 ^ 31)
    (hall : TakesAll (P - x.file.length) b.contents.length) :
    (svcRecvFile D writeAll b x).2.2.ctx = D.after (svcRecvFile D writeAll b x).2.2.file := by
  by_cases hb : b.contents = []
  · rw [svcRecvFile_noData D x hb]
    exact hctx
  have hd : takeLen (P - x.file.length : Nat) b.contents.length = b.contents.length := by
    rw [takeLen_of_takesAll hall]
    omega
  have hview : (mybuffSkipdata b b.contents.length).view b.contents.length = b.contents := by
    rw [Mybuff.view_skipdata_all b _ _ (by rw [b.contents_length]),
      Mybuff.view_of_le b (by rw [b.contents_length]), take_length]
  rw [svcRecvFile_some D h hb, hd, afterWrite_takes D h hlt]
  simp only [hview, hctx, take_length]
  exact D.update_after _ (by omega)

theorem receiveFile_ctx (h : Receiving P x) (hctx : x.ctx = D.after x.file)
    {chunks : List (List UInt8)}
    (hclean : CleanCalls (P - x.file.length : Nat) b.contents.length (chunks.map List.length))
    {y : Incoming C} (hy : receiveFile D initBuffSize b x chunks = some y) :
    y.ctx = D.after y.file := by
  induction chunks generalizing b x with
  | nil => cases hy
  | cons chunk chunks ih =>
    have hinc := h.incomplete
    have hset : (mybuffSetdata initBuffSize b chunk).contents.length =
        b.contents.length + chunk.length := by
      rw [Mybuff.contents_setdata, length_append]
    obtain ⟨hle, hlt, hrest⟩ := hclean
    rw [← hset] at hle hlt hrest
    rw [receiveFile] at hy
    generalize mybuffSetdata initBuffSize b chunk = b₁ at hle hlt hrest hy
    by_cases hall : TakesAll (P - x.file.length) b₁.contents.length
    · have hcall := clean_call (D := D) h hctx (by omega) hlt hall
      by_cases hc : (svcRecvFile D writeAll b₁ x).1 = .complete
      · simp only [if_pos hc, Option.some.injEq] at hy
        exact hy ▸ hcall
      simp only [if_neg hc] at hy
      have hnc : b₁.contents.length < P - x.file.length := by
        by_contra hge
        have he := ((exactCall_iff (D := D) h).mpr (.inl hall)).completes.mpr (by
          rw [length_append]
          omega)
        exact hc he
      obtain ⟨hrec, -, hcont, hfile⟩ := next_of_takesAll D h hall hnc
      refine ih hrec hcall ?_ hy
      have hR : ((P - (x.file ++ b₁.contents).length : Nat) : Int) =
          (P - x.file.length : Nat) - b₁.contents.length := by
        rw [length_append]
        omega
      rw [hcont, hfile, hR]
      exact hrest
    · -- the call takes less than it could: from here on nothing more is taken
      have hlow : (P - x.file.length) % 2 ^ 32 < 2 ^ 31 ∧ 2 ^ 32 ≤ P - x.file.length := by
        unfold TakesAll at hall
        omega
      have hd : takeLen (P - x.file.length : Nat) b₁.contents.length =
          (P - x.file.length) % 2 ^ 32 := by
        rw [takeLen_low _ hlow.1]
        unfold TakesAll at hall
        omega
      obtain ⟨hfile, -, hnext⟩ := svcRecvFile_state D h hd hlow.1
      obtain ⟨hrec, hne⟩ := hnext (by omega)
      simp only [if_neg hne] at hy
      have hlen : (x.file ++ b₁.contents.take ((P - x.file.length) % 2 ^ 32)).length =
          x.file.length + (P - x.file.length) % 2 ^ 32 := by
        rw [length_append, length_take]
        unfold TakesAll at hall
        omega
      rw [receiveFile_stuck hrec (by rw [hfile, hlen]; omega)] at hy
      cases hy

end Absorb

/-! ## 3. The fast branch -/

/-- The fast branch was taken exactly when the written bytes have the announced digest, and the
    file got its final name only if they have. -/
def Ended.Agrees {C : Type} (D : IncDigest C) (o : Ended) : Prop :=
  (o.fast = true ↔ D.digest o.file ++ [0] = o.filemd5) ∧
    (o.ret = .ok → D.digest o.file ++ [0] = o.filemd5)

/-- The connection carries no second file, the byte behind the digest is zero, and no call finds
    more bytes than the file is missing. -/
def SessionClean (as : List Arrival) : Prop :=
  as.length ≤ 1 ∧ ∀ a ∈ as, a.behind = 0 ∧
    CleanCalls a.processlen a.start.contents.length (a.chunks.map List.length)

section Fast

variable {C : Type} (D : IncDigest C)

theorem endFile_ok {a : Arrival} {x : Incoming C} (h : (endFile D a x).ret = .ok) :
    (endFile D a x).fast = true ∨ D.digest x.file ++ [0] = a.base.filemd5 := by
  by_cases hf : (endFile D a x).fast = true
  · exact .inl hf
  right
  have hf' : ((D.final x.ctx).1 ++ [a.behind] == a.base.filemd5) = false :=
    Bool.eq_false_iff.mpr hf
  have hfd : ¬ (a.localInFd : Int) < 0 := by omega
  simp only [endFile, closeTmpCheckMv, if_neg hfd, hf', Bool.false_eq_true, if_false,
    checkDigest] at h
  by_contra hne
  cases hr : a.readable with
  | true => simp [hr, hne] at h
  | false => simp [hr] at h

theorem endFile_agrees {a : Arrival} {x : Incoming C} (hover : a.behind = 0)
    (hctx : x.ctx = D.after x.file) : (endFile D a x).Agrees D := by
  have hfast : (endFile D a x).fast = true ↔ D.digest x.file ++ [0] = a.base.filemd5 := by
    show ((D.final x.ctx).1 ++ [a.behind] == a.base.filemd5) = true ↔ _
    rw [hctx, hover, beq_iff_eq]
    rfl
  refine ⟨hfast, fun hok => ?_⟩
  rcases endFile_ok D hok with h | h
  · exact hfast.mp h
  · exact h

/-- **The streamed digest decides as a re-read of the file would**, for every connection with clean
    calls and one file. -/
theorem streamDigest_agrees (initBuffSize : Nat) (as : List Arrival) (h : SessionClean as) :
    ∀ o ∈ session D initBuffSize D.init as, o.Agrees D := by
  obtain ⟨hone, hclean⟩ := h
  match as with
  | [] =>
    intro o ho
    cases ho
  | [a] =>
    obtain ⟨hover, hcalls⟩ := hclean a mem_cons_self
    intro o ho
    rw [session] at ho
    cases hr : receiveFile D initBuffSize a.start ⟨a.processlen, 0, D.init, []⟩ a.chunks with
    | none =>
      rw [hr] at ho
      cases ho
    | some x =>
      have ho' : o = endFile D a x := by simpa [hr, session] using ho
      subst ho'
      by_cases hp : 0 < a.processlen
      · obtain ⟨P, hP⟩ := Int.eq_ofNat_of_zero_le (Int.le_of_lt hp)
        have hrec : Receiving P (⟨a.processlen, 0, D.init, []⟩ : Incoming C) :=
          ⟨hP, rfl, by simp only [length_nil]; omega⟩
        rw [hP] at hcalls
        exact endFile_agrees D hover (receiveFile_ctx hrec rfl hcalls hr)
      · -- nothing is missing, so clean calls find nothing and the file is never complete
        rw [receiveFile_empty (Int.not_lt.mp hp) hcalls] at hr
        cases hr
  | _ :: _ :: _ => exact absurd hone (by simp)

end Fast

/-- A file of two bytes, "ab", announced with a given digest; what is buffered when it starts. -/
def twoByteFile (digest : List UInt8) (chunk : List UInt8) : Arrival where
  base := { TaskBase.zero with filemd5 := digest ++ [0] }
  processlen := 2
  start := mybuffInit
  chunks := [chunk]
  localInFd := 3
  behind := 0
  readable := true
  fs := ⟨fun _ => true, fun _ => true, none, false, none, none, none, none, true, none, 0⟩

/-- "ab" arrives alone: it is stored by the fast branch. -/
theorem streamDigest_of_two_bytes :
    (session md5 20480 md5.init [twoByteFile (md5.digest [97, 98]) [97, 98]]).map
        (fun o => (o.fast, o.ret)) = [(true, .ok)] ∧
      ∀ o ∈ session md5 20480 md5.init [twoByteFile (md5.digest [97, 98]) [97, 98]],
        o.Agrees md5 :=
  ⟨by decide +kernel, streamDigest_agrees md5 20480 _
    ⟨by decide, fun a ha => by
      rw [mem_singleton.mp ha]
      exact ⟨rfl, by decide, by decide, trivial⟩⟩⟩

/-- With a further byte "c" in the buffer, "cb" is absorbed: the file "ab" is stored although its
    digest was announced as that of "cb". And on the second file of a connection the fast branch is
    not taken, although the digest is right. -/
theorem streamDigest_disagrees :
    (¬ ∀ o ∈ session md5 20480 md5.init [twoByteFile (md5.digest [99, 98]) [97, 98, 99]],
      o.Agrees md5) ∧
    ¬ ∀ o ∈ session md5 20480 md5.init [twoByteFile (md5.digest [97, 98]) [97, 98],
      twoByteFile (md5.digest [97, 98]) [97, 98]], o.Agrees md5 := by
  refine ⟨fun hall => ?_, fun hall => ?_⟩
  · have hs : session md5 20480 md5.init [twoByteFile (md5.digest [99, 98]) [97, 98, 99]] =
        [⟨[97, 98], md5.digest [99, 98] ++ [0], true, .ok⟩] := by decide +kernel
    rw [hs] at hall
    have hne : md5.digest [97, 98] ++ [0] ≠ md5.digest [99, 98] ++ [0] := by decide +kernel
    exact hne ((hall _ mem_cons_self).2 rfl)
  · have hs : session md5 20480 md5.init [twoByteFile (md5.digest [97, 98]) [97, 98],
        twoByteFile (md5.digest [97, 98]) [97, 98]] =
        [⟨[97, 98], md5.digest [97, 98] ++ [0], true, .ok⟩,
          ⟨[97, 98], md5.digest [97, 98] ++ [0], false, .ok⟩] := by decide +kernel
    rw [hs] at hall
    have hfast := (hall _ (mem_cons_of_mem _ mem_cons_self)).1.mpr rfl
    cases hfast

end Pfs
