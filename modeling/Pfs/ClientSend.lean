/-
  `do_send` of the client library (lib/pfs_api.c).

  The results of `send` and `sendfile64` are kept in a `size_t`. A result of -1 is positive there:
  everything is skipped, and the branches for `errno` are only reached with a result of 0.

  Main result: `doSend_faithful_iff`.
-/
import Pfs.Lib.CInt
import Pfs.Mybuff

namespace Pfs

open Lib List

namespace Client

/-! ## 1. The calls -/

inductive Errno where
  | eintr
  | eagain
  | other
  deriving DecidableEq, Repr

/-- What a call returns, and `errno` after it. -/
structure SysRes where
  ret : Int
  errno : Errno
  deriving DecidableEq, Repr

/-- SOCK_CLOSE, SOCK_SEND and SOCK_COMP. -/
inductive SockRet where
  | close
  | send
  | comp
  deriving DecidableEq, Repr

def GSIZE : Nat := 1073741824

/-- A call that was made: `sendfile64` or `send`, how much it was asked to take, and its result. -/
structure Call where
  file : Bool
  len : Nat
  res : SysRes
  deriving DecidableEq, Repr

/-- How one of the two loops ends. -/
inductive LoopEnd where
  | took (n : Nat)
  | again
  | failed
  deriving DecidableEq, Repr

/-- `n = send(...)` or `n = sendfile64(...)` until the result is not EINTR; `rs` are the results of
    the calls to come, `none` when there are none left. -/
def callLoop (file : Bool) (len : Nat) : List SysRes → Option (LoopEnd × List Call × List SysRes)
  | [] => none
  | r :: rs =>
    let n := toSize r.ret
    if 0 < n then some (.took n, [⟨file, len, r⟩], rs)
    else
      match r.errno with
      | .eintr => (callLoop file len rs).map fun x => (x.1, ⟨file, len, r⟩ :: x.2.1, x.2.2)
      | .eagain => some (.again, [⟨file, len, r⟩], rs)
      | .other => some (.failed, [⟨file, len, r⟩], rs)

/-- What `do_send` leaves: its result, the buffer, and the calls it has made. -/
structure Sent where
  ret : SockRet
  buff : Mybuff
  calls : List Call
  deriving DecidableEq

/-- `do_send`, the file range. -/
def sendRange (b : Mybuff) (rs : List SysRes) : Option Sent :=
  match mybuffGetfile b with
  | none => some ⟨.comp, b, []⟩
  | some (_, _, len) =>
    (callLoop true (if GSIZE < len then GSIZE else len) rs).map fun x =>
      match x.1 with
      | .took n => ⟨if n < len then .send else .comp, mybuffSkipfile b n, x.2.1⟩
      | .again => ⟨.send, b, x.2.1⟩
      | .failed => ⟨.close, b, x.2.1⟩

/-- `do_send` -/
def doSend (b : Mybuff) (rs : List SysRes) : Option Sent :=
  match mybuffGetdata b with
  | none => sendRange b rs
  | some data =>
    match callLoop false data.length rs with
    | none => none
    | some (.took n, calls, rs) =>
      let b := mybuffSkipdata b n
      if n < data.length then some ⟨.send, b, calls⟩
      else (sendRange b rs).map fun o => { o with calls := calls ++ o.calls }
    | some (.again, calls, _) => some ⟨.send, b, calls⟩
    | some (.failed, calls, _) => some ⟨.close, b, calls⟩

/-! ## 2. What it is for -/

/-- The bytes the kernel has accepted, of the data or of the file. -/
def accepted (file : Bool) (calls : List Call) : Nat :=
  ((calls.filter fun c => c.file == file).map fun c => c.res.ret.toNat).sum

/-- A file range without its first `n` bytes. -/
def rangeDrop (n : Nat) (r : Option (Int × Int × Nat)) : Option (Int × Int × Nat) :=
  r.bind fun r => if r.2.2 ≤ n then none else some (r.1, r.2.1 + n, r.2.2 - n)

def Remains (b : Mybuff) : Prop := b.contents ≠ [] ∨ mybuffGetfile b ≠ none

/-- The bytes that the kernel accepted are taken off, no others. The last call was not interrupted;
    after EAGAIN or a partial send the result is SOCK_SEND, after another error SOCK_CLOSE;
    SOCK_COMP is returned only when nothing remains. -/
structure Faithful (b : Mybuff) (o : Sent) : Prop where
  data : o.buff.contents = b.contents.drop (accepted false o.calls)
  file : mybuffGetfile o.buff = rangeDrop (accepted true o.calls) (mybuffGetfile b)
  retry : ∀ c, o.calls.getLast? = some c → ¬ (c.res.ret = -1 ∧ c.res.errno = .eintr)
  again : ∀ c, o.calls.getLast? = some c →
    c.res.ret = -1 ∧ c.res.errno = .eagain ∨ 0 < c.res.ret ∧ Remains o.buff → o.ret = .send
  close : ∀ c, o.calls.getLast? = some c → c.res.ret = -1 ∧ c.res.errno = .other → o.ret = .close
  comp : o.ret = .comp → ¬ Remains o.buff

/-! ## 3. The buffer -/

section Buffer

variable {b : Mybuff} {n : Nat}

theorem getfile_skipfile (b : Mybuff) (n : Nat) :
    mybuffGetfile (mybuffSkipfile b n) = rangeDrop n (mybuffGetfile b) := by
  unfold mybuffSkipfile
  by_cases hfd : 0 ≤ b.fd
  · rw [if_pos hfd]
    by_cases hlen : b.flen ≤ n
    · rw [if_pos hlen]
      unfold mybuffGetfile rangeDrop
      rw [if_neg (by simp)]
      split
      · simp [hlen]
      · rfl
    · have hpos : 0 < b.flen := by omega
      rw [if_neg hlen]
      unfold mybuffGetfile rangeDrop
      rw [if_pos ⟨hfd, show 0 < b.flen - n by omega⟩, if_pos ⟨hfd, hpos⟩]
      simp [hlen]
  · rw [if_neg hfd]
    unfold mybuffGetfile rangeDrop
    simp [hfd]

theorem rangeDrop_zero_getfile (b : Mybuff) :
    rangeDrop 0 (mybuffGetfile b) = mybuffGetfile b := by
  cases h : mybuffGetfile b with
  | none => rfl
  | some x =>
    have hpos := Mybuff.getfile_pos h
    unfold rangeDrop
    simp only [Option.bind_some, if_neg (show ¬ x.2.2 ≤ 0 by omega)]
    simp

theorem rangeDrop_ne {x : Int × Int × Nat} (hn : 0 < n) :
    rangeDrop n (some x) ≠ some x := by
  unfold rangeDrop
  simp only [Option.bind_some]
  split
  · exact fun e => by cases e
  intro e
  have hx := congrArg (fun y => y.2.2) (Option.some.inj e)
  simp only at hx
  omega

theorem rangeDrop_eq_none {r : Int × Int × Nat} : rangeDrop n (some r) = none ↔ r.2.2 ≤ n := by
  unfold rangeDrop
  simp only [Option.bind_some]
  split <;> simp_all

end Buffer

/-! ## 4. The loops, for results that are positive or -1 -/

/-- A result of a call that was asked for something: a positive `ssize_t`, or -1. -/
def SysRes.Ok (r : SysRes) : Prop := r.ret = -1 ∨ 0 < r.ret ∧ r.ret < 2 ^ 63

section Loops

variable {b : Mybuff} {r : SysRes} {rs : List SysRes} {file : Bool} {len : Nat}

theorem toSize_pos (h : r.Ok) (hpos : 0 < r.ret) : toSize r.ret = r.ret.toNat := by
  obtain h | h := h
  · omega
  · exact toSize_of_nonneg (by omega) (by omega)

theorem toSize_failed (h : r.ret = -1) : toSize r.ret = 2 ^ 64 - 1 := by
  rw [h]
  rfl

/-- The first result ends the loop, -1 as well: the branches for `errno` are not reached. -/
theorem callLoop_ok (h : r.Ok) :
    callLoop file len (r :: rs) = some (.took (toSize r.ret), [⟨file, len, r⟩], rs) := by
  have hn : 0 < toSize r.ret := by
    obtain hr | hr := h
    · rw [toSize_failed hr]
      decide
    · rw [toSize_pos (.inr hr) hr.1]
      omega
  unfold callLoop
  exact if_pos hn

theorem sendRange_none (h : mybuffGetfile b = none) : sendRange b rs = some ⟨.comp, b, []⟩ := by
  unfold sendRange
  rw [h]

theorem sendRange_some {x : Int × Int × Nat} (h : mybuffGetfile b = some x) (hr : r.Ok) :
    sendRange b (r :: rs) =
      some ⟨if toSize r.ret < x.2.2 then .send else .comp, mybuffSkipfile b (toSize r.ret),
        [⟨true, if GSIZE < x.2.2 then GSIZE else x.2.2, r⟩]⟩ := by
  unfold sendRange
  rw [h]
  simp only [callLoop_ok hr, Option.map_some]

/-- What a call takes off the buffer, and what the kernel has accepted in it. -/
def skipped : Option Call → Nat
  | none => 0
  | some c => toSize c.res.ret

def acceptedBy : Option Call → Nat
  | none => 0
  | some c => c.res.ret.toNat

/-- What `do_send` does with such results: at most one call `d` for the data and one call `f` for
    the file range, whose results as `size_t` are skipped; SOCK_SEND when bytes remain, else
    SOCK_COMP. -/
structure Skips (b : Mybuff) (rs : List SysRes) (d f : Option Call) (o : Sent) : Prop where
  calls : o.calls = d.toList ++ f.toList
  ofData : ∀ c ∈ d, c.file = false ∧ b.contents ≠ [] ∧ c.res ∈ rs
  ofFile : ∀ c ∈ f, c.file = true ∧ mybuffGetfile b ≠ none ∧ c.res ∈ rs
  data : o.buff.contents = b.contents.drop (skipped d)
  file : mybuffGetfile o.buff = rangeDrop (skipped f) (mybuffGetfile b)
  ret : o.ret = .send ∧ Remains o.buff ∨ o.ret = .comp ∧ ¬ Remains o.buff

theorem sendRange_skips (hr : r.Ok) (hd : b.contents = []) :
    ∃ f o, sendRange b (r :: rs) = some o ∧ Skips b (r :: rs) none f o := by
  cases hf : mybuffGetfile b with
  | none =>
    refine ⟨none, _, sendRange_none hf, rfl, by simp, by simp, rfl, ?_, .inr ⟨rfl, ?_⟩⟩
    · rw [hf]
      rfl
    · simp [Remains, hd, hf]
  | some x =>
    have hx := getfile_skipfile b (toSize r.ret)
    rw [hf] at hx
    refine ⟨some ⟨true, if GSIZE < x.2.2 then GSIZE else x.2.2, r⟩, _, sendRange_some hf hr, rfl,
      by simp, ?_, ?_, ?_, ?_⟩
    · intro c hc
      cases hc
      exact ⟨rfl, by simp [hf], mem_cons_self⟩
    · exact Mybuff.contents_skipfile _ _
    · rw [hf]
      exact hx
    · by_cases hn : toSize r.ret < x.2.2
      · rw [if_pos hn]
        refine .inl ⟨rfl, .inr fun hnone => ?_⟩
        rw [hx, rangeDrop_eq_none] at hnone
        omega
      · rw [if_neg hn]
        refine .inr ⟨rfl, fun hrem => ?_⟩
        obtain hrem | hrem := hrem
        · exact hrem ((Mybuff.contents_skipfile _ _).trans hd)
        · exact hrem (hx.trans (rangeDrop_eq_none.mpr (by omega)))

theorem doSend_skips {r' : SysRes} (hr : r.Ok) (hr' : r'.Ok) :
    ∃ d f o, doSend b (r :: r' :: rs) = some o ∧ Skips b (r :: r' :: rs) d f o := by
  unfold doSend
  cases hd : mybuffGetdata b with
  | none =>
    obtain ⟨f, o, ho, hs⟩ := @sendRange_skips b r (r' :: rs) hr (Mybuff.contents_of_getdata_none hd)
    exact ⟨none, f, o, ho, hs⟩
  | some data =>
    obtain ⟨hc, hne⟩ := Mybuff.contents_of_getdata hd
    simp only [callLoop_ok hr]
    have hskip : (mybuffSkipdata b (toSize r.ret)).contents = b.contents.drop (toSize r.ret) :=
      b.contents_skipdata _
    by_cases hn : toSize r.ret < data.length
    · refine ⟨some ⟨false, data.length, r⟩, none, _, if_pos hn, rfl, ?_, by simp, hskip, ?_,
        .inl ⟨rfl, .inl ?_⟩⟩
      · intro c hmem
        cases hmem
        exact ⟨rfl, hc ▸ hne, mem_cons_self⟩
      · rw [Mybuff.getfile_skipdata]
        exact (rangeDrop_zero_getfile b).symm
      · rw [hskip, hc, Ne, drop_eq_nil_iff]
        omega
    · have hnil : (mybuffSkipdata b (toSize r.ret)).contents = [] := by
        rw [hskip, hc]
        exact drop_eq_nil_of_le (by omega)
      obtain ⟨f, o, ho, hs⟩ := @sendRange_skips _ r' rs hr' hnil
      refine ⟨some ⟨false, data.length, r⟩, f,
        { o with calls := ⟨false, data.length, r⟩ :: o.calls }, ?_, ?_, ?_, ?_, ?_, ?_, hs.ret⟩
      · rw [if_neg hn, ho]
        rfl
      · simp [hs.calls]
      · intro c hmem
        cases hmem
        exact ⟨rfl, hc ▸ hne, mem_cons_self⟩
      · intro c hmem
        obtain ⟨hk, hget, hin⟩ := hs.ofFile c hmem
        exact ⟨hk, by simpa using hget, mem_cons_of_mem r hin⟩
      · exact hs.data.trans hskip
      · simpa using hs.file

end Loops

/-! ## 5. Nothing is dropped exactly when no call fails -/

section Main

variable {b : Mybuff} {rs : List SysRes} {d f : Option Call} {o : Sent}

theorem accepted_append (k : Bool) (x y : List Call) :
    accepted k (x ++ y) = accepted k x + accepted k y := by
  simp [accepted]

theorem accepted_same {k : Bool} {c : Option Call} (h : ∀ x ∈ c, x.file = k) :
    accepted k c.toList = acceptedBy c := by
  cases c with
  | none => rfl
  | some c => simp [accepted, acceptedBy, h c rfl]

theorem accepted_other {k : Bool} {c : Option Call} (h : ∀ x ∈ c, x.file = !k) :
    accepted k c.toList = 0 := by
  cases c with
  | none => rfl
  | some c => simp [accepted, h c rfl]

theorem accepted_data (h : Skips b rs d f o) : accepted false o.calls = acceptedBy d := by
  rw [h.calls, accepted_append, accepted_same fun c hc => (h.ofData c hc).1,
    accepted_other (k := false) fun c hc => (h.ofFile c hc).1, Nat.add_zero]

theorem accepted_file (h : Skips b rs d f o) : accepted true o.calls = acceptedBy f := by
  rw [h.calls, accepted_append, accepted_same fun c hc => (h.ofFile c hc).1,
    accepted_other (k := true) fun c hc => (h.ofData c hc).1, Nat.zero_add]

variable {c : Call}

theorem mem_calls (h : Skips b rs d f o) : c ∈ o.calls ↔ c ∈ d ∨ c ∈ f := by
  rw [h.calls, mem_append, Option.mem_toList, Option.mem_toList, Option.mem_def, Option.mem_def]

theorem skipped_pos {c : Option Call} (hok : ∀ x ∈ c, x.res.Ok) (hpos : ∀ x ∈ c, 0 < x.res.ret) :
    skipped c = acceptedBy c := by
  cases c with
  | none => rfl
  | some c => exact toSize_pos (hok c rfl) (hpos c rfl)

/-- A failed one is skipped as a number above every length, and nothing was accepted. -/
theorem skipped_failed (h : c.res.ret = -1) : skipped (some c) = 2 ^ 64 - 1 :=
  toSize_failed h

theorem acceptedBy_failed (h : c.res.ret = -1) : acceptedBy (some c) = 0 := by
  show c.res.ret.toNat = 0
  rw [h]
  rfl

section Calls

variable (h : Skips b rs d f o) (hok : ∀ r ∈ rs, r.Ok)

include h hok

theorem faithful_of_pos (hpos : ∀ c ∈ o.calls, 0 < c.res.ret) : Faithful b o := by
  have hd : skipped d = acceptedBy d :=
    skipped_pos (fun c hc => hok _ (h.ofData c hc).2.2)
      fun c hc => hpos c ((mem_calls h).mpr (.inl hc))
  have hf : skipped f = acceptedBy f :=
    skipped_pos (fun c hc => hok _ (h.ofFile c hc).2.2)
      fun c hc => hpos c ((mem_calls h).mpr (.inr hc))
  have hlast : ∀ c, o.calls.getLast? = some c → 0 < c.res.ret := fun c hc =>
    hpos c (mem_of_getLast? hc)
  refine ⟨?_, ?_, ?_, ?_, ?_, ?_⟩
  · rw [accepted_data h, ← hd]
    exact h.data
  · rw [accepted_file h, ← hf]
    exact h.file
  · intro c hc hneg
    have := hlast c hc
    omega
  · intro c hc hrem
    obtain hneg | hrem := hrem
    · have := hlast c hc
      omega
    obtain hret | hret := h.ret
    · exact hret.1
    · exact absurd hrem.2 hret.2
  · intro c hc hneg
    have := hlast c hc
    omega
  · intro hcomp
    obtain hret | hret := h.ret
    · rw [hret.1] at hcomp
      cases hcomp
    · exact hret.2

/-- A failed call for the data drops the first byte of it, which nobody has accepted. -/
theorem data_pos (hfaith : Faithful b o) (hc : c ∈ d) : 0 < c.res.ret := by
  obtain ⟨-, hne, hin⟩ := h.ofData c hc
  cases hc
  obtain hneg | hpos := hok _ hin
  · have hdrop := h.data.symm.trans hfaith.data
    rw [accepted_data h, skipped_failed hneg, acceptedBy_failed hneg] at hdrop
    have hlen := congrArg List.length hdrop
    have hpos := length_pos_iff.mpr hne
    rw [length_drop, length_drop] at hlen
    omega
  · exact hpos.1

theorem file_pos (hfaith : Faithful b o) (hc : c ∈ f) : 0 < c.res.ret := by
  obtain ⟨-, hne, hin⟩ := h.ofFile c hc
  cases hc
  obtain hneg | hpos := hok _ hin
  · have hdrop := h.file.symm.trans hfaith.file
    rw [accepted_file h, skipped_failed hneg, acceptedBy_failed hneg, rangeDrop_zero_getfile]
      at hdrop
    obtain ⟨x, hx⟩ := Option.ne_none_iff_exists'.mp hne
    rw [hx] at hdrop
    exact absurd hdrop (rangeDrop_ne (by decide))
  · exact hpos.1

end Calls

theorem res_mem (h : Skips b rs d f o) (hc : c ∈ o.calls) : c.res ∈ rs := by
  obtain hc | hc := (mem_calls h).mp hc
  · exact (h.ofData c hc).2.2
  · exact (h.ofFile c hc).2.2

/-- **For any buffer and any results of `send` and `sendfile64` that are positive or -1, `do_send`
    returns. When none is -1, the bytes taken off and the returned code are those of what the kernel
    accepted; when one of the calls that it makes fails, they are not.** -/
theorem doSend_faithful_iff (b : Mybuff) (rs : List SysRes) (hlen : 2 ≤ rs.length)
    (hok : ∀ r ∈ rs, r.Ok) :
    ∃ o, doSend b rs = some o ∧ ((∀ r ∈ rs, 0 < r.ret) → Faithful b o) ∧
      (Faithful b o ↔ ∀ c ∈ o.calls, 0 < c.res.ret) := by
  match rs, hlen, hok with
  | r :: r' :: rs, _, hok =>
    obtain ⟨d, f, o, ho, h⟩ := @doSend_skips b r rs r' (hok r (by simp)) (hok r' (by simp))
    refine ⟨o, ho, fun hpos => ?_, fun hfaith c hc => ?_, faithful_of_pos h hok⟩
    · exact faithful_of_pos h hok fun c hc => hpos c.res (res_mem h hc)
    · obtain hc | hc := (mem_calls h).mp hc
      · exact data_pos h hok hfaith hc
      · exact file_pos h hok hfaith hc

/-- Four bytes and ten bytes of a file, the kernel takes two of the four. -/
def partialBuff : Mybuff := mybuffSetfile (mybuffSetdata 2048 mybuffInit [1, 2, 3, 4]) 5 0 10

/-- With two bytes accepted, the two others stay and SOCK_SEND is returned. -/
theorem doSend_faithful_partial :
    ∃ o, doSend partialBuff [⟨2, .other⟩, ⟨1, .other⟩] = some o ∧ Faithful partialBuff o ∧
      o.ret = .send ∧ o.buff.contents = [3, 4] ∧ mybuffGetfile o.buff = some (5, 0, 10) := by
  obtain ⟨o, ho, h, -⟩ := doSend_faithful_iff partialBuff [⟨2, .other⟩, ⟨1, .other⟩] (by decide) (by
    intro r hr
    simp only [mem_cons, not_mem_nil, or_false] at hr
    obtain rfl | rfl := hr <;> exact .inr (by decide))
  have hval : doSend partialBuff [⟨2, .other⟩, ⟨1, .other⟩] =
      some ⟨.send, mybuffSkipdata partialBuff 2, [⟨false, 4, ⟨2, .other⟩⟩]⟩ := by decide
  obtain rfl := Option.some.inj (ho.symm.trans hval)
  exact ⟨_, ho, h (by decide), rfl, by decide, by decide⟩

/-- One byte is buffered and `send` fails with EAGAIN: it is dropped, and SOCK_COMP returned. -/
theorem doSend_drops_unsent :
    ∃ o, doSend (mybuffSetdata 2048 mybuffInit [1]) [⟨-1, .eagain⟩] = some o ∧
      o.calls = [⟨false, 1, ⟨-1, .eagain⟩⟩] ∧ o.ret = .comp ∧ o.buff.contents = [] ∧
      ¬ Faithful (mybuffSetdata 2048 mybuffInit [1]) o := by
  refine ⟨⟨.comp, mybuffSkipdata (mybuffSetdata 2048 mybuffInit [1]) (2 ^ 64 - 1), _⟩, by decide,
    rfl, rfl, by decide, fun h => ?_⟩
  have hret := h.again ⟨false, 1, ⟨-1, .eagain⟩⟩ rfl (.inl ⟨rfl, rfl⟩)
  cases hret

end Main

end Client

end Pfs
