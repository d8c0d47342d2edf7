/-
  When is a file sent? `do_send` of network/pfs_so.c counts the bytes of a reply in
  `send_len`, an `int`; `svc_send` of network/D/pfs_data.c compares it with the length of
  head and file.

  The run below is that of one CMD_GET_FILE_REQ: `do_send_task`, then calls of `do_send` with
  whatever `send` and `sendfile64` return. Mark: the bytes that were given to the socket.

  Main results: `sent_ok`, `sent_long`.
-/
import Pfs.StoredName

namespace Pfs

open Lib

/-! ## 1. The calls -/

def GSIZE : Nat := 1073741824

/-- One call of `do_send`: what `send` and `sendfile64` return. -/
structure SendCall where
  e : Env
  data : SendRes
  file : SendRes

def dataOut (r : SendRes) (p : Peer) : Nat :=
  match mybuffGetdata p.sendBuff, r with
  | some _, .sent n => n
  | _, _ => 0

def fileOut (r : SendRes) (p : Peer) : Nat :=
  match mybuffGetfile p.sendBuff, r with
  | some _, .sent n => n
  | _, _ => 0

def SendCall.out (c : SendCall) (p : Peer) : Nat :=
  dataOut c.data p +
    if (sendData c.data p).1 = .addEpollin then fileOut c.file (sendData c.data p).2 else 0

def SendCall.Possible (c : SendCall) (p : Peer) : Prop :=
  (∀ d n, mybuffGetdata p.sendBuff = some d → c.data = .sent n → 0 < n ∧ n ≤ d.length) ∧
    ∀ r n, mybuffGetfile p.sendBuff = some r → c.file = .sent n → 0 < n ∧ n ≤ min r.2.2 GSIZE

/-- The storage, and the bytes emitted for the reply. -/
structure Sent where
  s : Storage
  out : Nat

/-- A call of `do_send` on a connection that sends a file. -/
def sendNext (fd : Fd) (x : Sent) (c : SendCall) : Option Sent :=
  match x.s.conn fd with
  | none => none
  | some p =>
    if p.sockStat = .sendfileing then
      (doSend c.e fd c.data c.file p x.s).toOption.map fun s => ⟨s, x.out + c.out p⟩
    else none

def SendOk (fd : Fd) (x : Sent) (c : SendCall) : Prop := ∀ p, x.s.conn fd = some p → c.Possible p

/-! ## 2. A file on its way -/

def fileLeft (b : Mybuff) : Nat := ((mybuffGetfile b).map fun r => r.2.2).getD 0

section Sending

variable {i : NodeId} {total out : Nat} {p : Peer} {pool : Pool}

/-- The connection of a file of which `out` bytes of `total`, with the head, are emitted. -/
structure Sending (i : NodeId) (total out : Nat) (p : Peer) (pool : Pool) : Prop where
  svc : p.svc = .data
  stat : p.sockStat = .sendfileing
  task : p.sendtask = some i
  recv : p.recvtask = none
  close : p.close = false
  size : (p.headlen + (pool.node i).sub.processlen : Int) = total
  left : out + (p.sendBuff.contents.length + fileLeft p.sendBuff) = total
  sendLen : p.sendLen = toInt32 out

theorem fileLeft_skipfile {b : Mybuff} {r : Int × Int × Nat} (n : Nat)
    (h : mybuffGetfile b = some r) :
    fileLeft (mybuffSkipfile b n) = fileLeft b - n := by
  obtain ⟨lfd, off, len⟩ := r
  by_cases hn : n < len
  · simp [fileLeft, h, Mybuff.getfile_skipfile_lt h hn]
  · have hle := Nat.le_of_not_lt hn
    simp [fileLeft, h, Mybuff.getfile_skipfile_le h hle, Nat.sub_eq_zero_of_le hle]

theorem toInt32_add (a b : Int) : toInt32 (toInt32 a + b) = toInt32 (a + b) := by
  unfold toInt32
  exact Int.bmod_add_bmod

theorem Sending.afterData (h : Sending i total out p pool) {r : SendRes}
    (hr : ∀ d n, mybuffGetdata p.sendBuff = some d → r = .sent n → 0 < n ∧ n ≤ d.length) :
    Sending i total (out + dataOut r p) (sendData r p).2 pool ∧
      mybuffGetfile (sendData r p).2.sendBuff = mybuffGetfile p.sendBuff ∧
      ((sendData r p).1 = .addEpollin → (sendData r p).2.sendBuff.contents = []) ∧
      ((sendData r p).1 ≠ .addEpollin → out + dataOut r p < total) := by
  unfold sendData dataOut
  cases hdata : mybuffGetdata p.sendBuff with
  | none => exact ⟨h, rfl, fun _ => Mybuff.contents_of_getdata_none hdata,
    fun hne => absurd rfl hne⟩
  | some d =>
    obtain ⟨hd, hne⟩ := Mybuff.contents_of_getdata hdata
    have hpos : 0 < d.length := List.length_pos_of_ne_nil hne
    have hleft := h.left
    rw [hd] at hleft
    have hlt : out < total := by omega
    cases r with
    | sent n =>
      obtain ⟨-, hn⟩ := hr d n hdata rfl
      have hlen : (mybuffSkipdata p.sendBuff n).contents.length = d.length - n := by
        rw [Mybuff.contents_skipdata, List.length_drop, hd]
      have hfile : fileLeft (mybuffSkipdata p.sendBuff n) = fileLeft p.sendBuff := by
        rw [fileLeft, Mybuff.getfile_skipdata, fileLeft]
      refine ⟨⟨h.svc, h.stat, h.task, h.recv, h.close, h.size, ?_, ?_⟩, Mybuff.getfile_skipdata _ _,
        ?_, ?_⟩
      · simp only [hlen, hfile]
        omega
      · simp only [h.sendLen, toInt32_add]
        norm_cast
      · intro hall
        rw [← List.length_eq_zero_iff]
        simp only at hall ⊢
        split at hall
        · cases hall
        · omega
      · intro hpart
        simp only at hpart ⊢
        split at hpart
        · omega
        · exact absurd rfl hpart
    | again | zero | err => exact ⟨h, rfl, SendRet.noConfusion, fun _ => hlt⟩

theorem Sending.afterFile (h : Sending i total out p pool) (hnil : p.sendBuff.contents = [])
    (e : Env) (s : Storage) {r : SendRes}
    (hr : ∀ f n, mybuffGetfile p.sendBuff = some f → r = .sent n → n ≤ f.2.2) :
    Sending i total (out + fileOut r p) (sendFile e r p s).2 pool ∧
      ((sendFile e r p s).1 = .addEpollin → out + fileOut r p = total) ∧
      ((sendFile e r p s).1 ≠ .addEpollin → out + fileOut r p < total) := by
  have hleft := h.left
  rw [hnil, List.length_nil, Nat.zero_add] at hleft
  unfold sendFile fileOut
  cases hfile : mybuffGetfile p.sendBuff with
  | none =>
    have hzero : fileLeft p.sendBuff = 0 := by
      rw [fileLeft, hfile]
      rfl
    have hall : out = total := by omega
    exact ⟨h, fun _ => hall, fun hne => absurd rfl hne⟩
  | some f =>
    obtain ⟨lfd, off, len⟩ := f
    have hpos := Mybuff.getfile_pos hfile
    have hlen : fileLeft p.sendBuff = len := by
      rw [fileLeft, hfile]
      rfl
    simp only at hpos
    have hlt : out < total := by omega
    cases r with
    | sent n =>
      have hn := hr (lfd, off, len) n hfile rfl
      simp only at hn
      refine ⟨⟨h.svc, h.stat, h.task, h.recv, h.close, h.size, ?_, ?_⟩, ?_, ?_⟩
      · simp only [fileLeft_skipfile n hfile, Mybuff.contents_skipfile, hnil, List.length_nil]
        omega
      · simp only [h.sendLen, toInt32_add]
        norm_cast
      · intro hall
        simp only at hall ⊢
        split at hall
        · cases hall
        · omega
      · intro hpart
        simp only at hpart ⊢
        split at hpart
        · omega
        · exact absurd rfl hpart
    | zero =>
      refine ⟨h, fun hin => ?_, fun _ => hlt⟩
      simp only at hin
      split at hin <;> cases hin
    | again | err => exact ⟨h, SendRet.noConfusion, fun _ => hlt⟩

/-- Both calls: what `do_send` makes of them. -/
def SendCall.result (c : SendCall) (p : Peer) (s : Storage) : SendRet × Peer :=
  if (sendData c.data p).1 = .addEpollin then sendFile c.e c.file (sendData c.data p).2 s
  else sendData c.data p

theorem Sending.afterCall (h : Sending i total out p pool) {c : SendCall} (hc : c.Possible p)
    (s : Storage) :
    Sending i total (out + c.out p) (c.result p s).2 pool ∧
      ((c.result p s).1 = .addEpollin → out + c.out p = total) ∧
      ((c.result p s).1 ≠ .addEpollin → out + c.out p < total) := by
  obtain ⟨hdata, hfile, hnil, hless⟩ := h.afterData hc.1
  unfold SendCall.out SendCall.result
  by_cases hin : (sendData c.data p).1 = .addEpollin
  · rw [if_pos hin, if_pos hin, ← Nat.add_assoc]
    refine hdata.afterFile (hnil hin) c.e s fun f n hf hn => ?_
    rw [hfile] at hf
    exact Nat.le_trans (hc.2 f n hf hn).2 (Nat.min_le_left _ _)
  · rw [if_neg hin, if_neg hin, Nat.add_zero]
    exact ⟨hdata, fun h => absurd h hin, hless⟩

end Sending

/-! ## 3. The end -/

/-- The task was put into TASK_Q_FIN with this status. -/
def Finished (i : NodeId) (overstatus : UInt8) (s : Storage) : Prop :=
  ∃ (e : Env) (pool : Pool), s.pool = e.set i .fin (pool.over i overstatus)

/-- The connection stays, ready for the next request. -/
def ReadyAgain (fd : Fd) (s : Storage) : Prop :=
  ∃ p, s.conn fd = some p ∧ p.sockStat = .idle ∧ p.sendtask = none ∧ p.close = false

/-- The comparison of `svc_send`, with everything emitted. -/
def countsAll (total : Nat) : Bool := toInt64 total ≤ toInt32 total

def endStatus (total : Nat) : UInt8 := if countsAll total then OVER_OK else OVER_SEND_LEN

/-- A request on its way, completely sent, or given up. -/
inductive Track (fd : Fd) (i : NodeId) (total : Nat) (x : Sent) : Prop where
  | sending (p : Peer) (hp : x.s.conn fd = some p) (h : Sending i total x.out p x.s.pool)
      (hout : x.out < total)
  | done (hready : ReadyAgain fd x.s) (hfin : Finished i OVER_OK x.s) (hout : x.out = total)
      (hcount : countsAll total = true)
  | short (hp : x.s.conn fd = none) (hfin : Finished i OVER_SEND_LEN x.s)
      (hout : x.out < total ∨ x.out = total ∧ countsAll total = false)

section Step

variable {fd : Fd} {i : NodeId} {total out : Nat} {p : Peer} {s : Storage} {e : Env}

theorem Sending.closed (h : Sending i total out p s.pool) :
    (svcFiniconn e fd p s).conn fd = none ∧ Finished i OVER_SEND_LEN (svcFiniconn e fd p s) := by
  have hrecv : ∀ s, finiRecv e p s = s := by
    intro s
    rw [finiRecv, h.recv]
  refine ⟨by simp [svcFiniconn], e, s.pool, ?_⟩
  simp [svcFiniconn, hrecv, finiSend, h.task]

theorem Sending.complete (h : Sending i total total p s.pool) :
    svcSend e fd p s = .ok (!countsAll total,
      { s with pool := e.set i .fin (s.pool.over i (endStatus total)) }.setPeer fd
        { p with sockStat := .idle, sendtask := none }) := by
  have hcount : decide (toInt64 (p.headlen + (s.pool.node i).sub.processlen) ≤ p.sendLen) =
      countsAll total := by
    rw [h.size, h.sendLen]
    rfl
  rw [svcSend, h.svc]
  simp only [h.stat, h.task, if_true, hcount, h.close, Bool.or_false]
  rfl

theorem svcFiniconn_plain (hsend : p.sendtask = none) (hrecv : p.recvtask = none) :
    svcFiniconn e fd p s =
      { s with conn := Function.update s.conn fd none, online := s.online.filter (· != fd) } := by
  rw [svcFiniconn, finiSend, hsend, finiRecv, hrecv]

theorem doSend_eq (c : SendCall) (p : Peer) (s : Storage) :
    doSend c.e fd c.data c.file p s =
      match (c.result p s).1 with
      | .close => .ok (svcFiniconn c.e fd (c.result p s).2 (s.setPeer fd (c.result p s).2))
      | .addEpollout => .ok (s.setPeer fd (c.result p s).2)
      | .addEpollin =>
        match svcSend c.e fd (c.result p s).2 (s.setPeer fd (c.result p s).2) with
        | .error f => .error f
        | .ok (close, s) =>
          .ok (if close then (match s.conn fd with | some p => svcFiniconn c.e fd p s | none => s)
            else s) :=
  rfl

variable {x : Sent} {c : SendCall}

section Calls

variable (hp : x.s.conn fd = some p) (h : Sending i total x.out p x.s.pool)

include hp h

theorem sendNext_eq :
    sendNext fd x c =
      (doSend c.e fd c.data c.file p x.s).toOption.map fun s => ⟨s, x.out + c.out p⟩ := by
  rw [sendNext, hp]
  simp only [h.stat, if_true]

theorem Sending.call_close (hc : c.Possible p) (hret : (c.result p x.s).1 = .close) :
    ∃ x', sendNext fd x c = some x' ∧ x'.s.conn fd = none ∧ Finished i OVER_SEND_LEN x'.s ∧
      x'.out < total := by
  obtain ⟨hsend, -, hless⟩ := h.afterCall hc x.s
  obtain ⟨hnone, hfin⟩ :=
    @Sending.closed fd i total _ _ (x.s.setPeer fd (c.result p x.s).2) c.e hsend
  refine ⟨⟨_, x.out + c.out p⟩, ?_, hnone, hfin, hless ?_⟩
  · rw [sendNext_eq hp h, doSend_eq, hret]
    rfl
  · rw [hret]
    exact SendRet.noConfusion

theorem Sending.call_more (hc : c.Possible p) (hret : (c.result p x.s).1 = .addEpollout) :
    ∃ x' p', sendNext fd x c = some x' ∧ x'.s.conn fd = some p' ∧
      Sending i total x'.out p' x'.s.pool ∧
      x'.out < total ∧ x'.out = x.out + c.out p := by
  obtain ⟨hsend, -, hless⟩ := h.afterCall hc x.s
  refine ⟨⟨x.s.setPeer fd (c.result p x.s).2, x.out + c.out p⟩, _, ?_, ?_, hsend, hless ?_, rfl⟩
  · rw [sendNext_eq hp h, doSend_eq, hret]
    rfl
  · exact Function.update_self _ _ _
  · rw [hret]
    exact SendRet.noConfusion

theorem Sending.call_all (hc : c.Possible p) (hret : (c.result p x.s).1 = .addEpollin) :
    ∃ x', sendNext fd x c = some x' ∧ x'.out = total ∧
      (countsAll total = true ∧ Finished i OVER_OK x'.s ∧ ReadyAgain fd x'.s ∨
        countsAll total = false ∧ Finished i OVER_SEND_LEN x'.s ∧ x'.s.conn fd = none) := by
  obtain ⟨hsend, hall, -⟩ := h.afterCall hc x.s
  have hout := hall hret
  rw [hout] at hsend
  have hsvc := @Sending.complete fd i total _ (x.s.setPeer fd (c.result p x.s).2) c.e hsend
  have hrecv := hsend.recv
  have hclose := hsend.close
  rw [sendNext_eq hp h, doSend_eq, hret]
  simp only [hsvc]
  generalize (c.result p x.s).2 = p' at hrecv hclose
  have hconn : ∀ t : Storage,
      (t.setPeer fd { p' with sockStat := .idle, sendtask := none }).conn fd =
      some { p' with sockStat := .idle, sendtask := none } := fun t => Function.update_self _ _ _
  cases hcount : countsAll total with
  | true =>
    have hfin : endStatus total = OVER_OK := by rw [endStatus, hcount]; rfl
    rw [hfin]
    exact ⟨_, rfl, hout, .inl ⟨rfl, ⟨c.e, x.s.pool, rfl⟩, _, hconn _, rfl, rfl, hclose⟩⟩
  | false =>
    -- The connection is closed once more, now without a task.
    have hplain := fun t =>
      @svcFiniconn_plain fd { p' with sockStat := .idle, sendtask := none } t c.e rfl
      hrecv
    have hfin : endStatus total = OVER_SEND_LEN := by rw [endStatus, hcount]; rfl
    simp only [hconn, hplain, Bool.not_false, if_true, hfin]
    exact ⟨_, rfl, hout, .inr ⟨trivial, ⟨c.e, x.s.pool, rfl⟩, Function.update_self _ _ _⟩⟩

end Calls

end Step

variable {fd : Fd} {i : NodeId} {total : Nat} {x : Sent}

theorem Sending.call {p : Peer} {c : SendCall}
    (hp : x.s.conn fd = some p) (h : Sending i total x.out p x.s.pool) (hc : c.Possible p) :
    ∃ x', sendNext fd x c = some x' ∧ Track fd i total x' := by
  cases hret : (c.result p x.s).1 with
  | close =>
    obtain ⟨x', hs, hnone, hfin, hout⟩ := h.call_close hp hc hret
    exact ⟨x', hs, .short hnone hfin (.inl hout)⟩
  | addEpollout =>
    obtain ⟨x', p', hs, hp', hsend, hout, -⟩ := h.call_more hp hc hret
    exact ⟨x', hs, .sending p' hp' hsend hout⟩
  | addEpollin =>
    obtain ⟨x', hs, hout, hend⟩ := h.call_all hp hc hret
    refine ⟨x', hs, ?_⟩
    obtain ⟨hcount, hfin, hready⟩ | ⟨hcount, hfin, hnone⟩ := hend
    · exact .done hready hfin hout hcount
    · exact .short hnone hfin (.inr ⟨hout, hcount⟩)

theorem Track.next {x' : Sent} {c : SendCall}
    (h : Track fd i total x) (hok : SendOk fd x c) (hs : sendNext fd x c = some x') :
    Track fd i total x' := by
  cases h with
  | done hready _ _ _ =>
    obtain ⟨p, hp, hidle, -⟩ := hready
    rw [sendNext, hp] at hs
    simp only [hidle] at hs
    cases hs
  | short hp _ _ =>
    rw [sendNext, hp] at hs
    cases hs
  | sending p hp h hout =>
    obtain ⟨x'', hs', htrack⟩ := h.call hp (hok p hp)
    rw [hs'] at hs
    cases hs
    exact htrack

/-! ### Everything can be emitted -/

/-- A call that emits what the two system calls can take. -/
def fullCall (e : Env) (p : Peer) : SendCall where
  e := e
  data := .sent p.sendBuff.contents.length
  file := .sent (min (fileLeft p.sendBuff) GSIZE)

theorem fileLeft_of_getfile {b : Mybuff} {r : Int × Int × Nat} (h : mybuffGetfile b = some r) :
    fileLeft b = r.2.2 := by
  rw [fileLeft, h]
  rfl

theorem fullCall_possible (e : Env) (p : Peer) : (fullCall e p).Possible p := by
  constructor
  · intro d n hd hn
    obtain ⟨hcontents, hne⟩ := Mybuff.contents_of_getdata hd
    cases hn
    rw [hcontents]
    exact ⟨List.length_pos_of_ne_nil hne, Nat.le_refl _⟩
  · intro r n hr hn
    have hpos := Mybuff.getfile_pos hr
    cases hn
    rw [fileLeft_of_getfile hr]
    exact ⟨Nat.lt_min.mpr ⟨hpos, by decide⟩, Nat.le_refl _⟩

theorem sendData_full (p : Peer) :
    (sendData (.sent p.sendBuff.contents.length) p).1 = .addEpollin ∧
      mybuffGetfile (sendData (.sent p.sendBuff.contents.length) p).2.sendBuff =
        mybuffGetfile p.sendBuff ∧
      dataOut (.sent p.sendBuff.contents.length) p = p.sendBuff.contents.length := by
  unfold sendData dataOut
  cases hdata : mybuffGetdata p.sendBuff with
  | none => exact ⟨rfl, rfl, by rw [Mybuff.contents_of_getdata_none hdata]; rfl⟩
  | some d =>
    rw [(Mybuff.contents_of_getdata hdata).1]
    exact ⟨if_neg (Nat.lt_irrefl _), Mybuff.getfile_skipdata _ _, rfl⟩

theorem sendFile_sent (e : Env) (n : Nat) (p : Peer) (s : Storage) :
    (sendFile e (.sent n) p s).1 ≠ .close := by
  unfold sendFile
  cases mybuffGetfile p.sendBuff with
  | none => exact SendRet.noConfusion
  | some r =>
    simp only
    split <;> exact SendRet.noConfusion

theorem fullCall_ret (e : Env) (p : Peer) (s : Storage) :
    ((fullCall e p).result p s).1 ≠ .close := by
  rw [SendCall.result, fullCall, if_pos (sendData_full p).1]
  exact sendFile_sent e _ _ s

theorem fullCall_out (e : Env) (p : Peer) :
    (fullCall e p).out p = p.sendBuff.contents.length + min (fileLeft p.sendBuff) GSIZE := by
  obtain ⟨hret, hfile, hout⟩ := sendData_full p
  rw [SendCall.out, fullCall, if_pos hret, hout]
  unfold fileOut
  rw [hfile]
  cases hget : mybuffGetfile p.sendBuff with
  | none =>
    have hzero : fileLeft p.sendBuff = 0 := by rw [fileLeft, hget]; rfl
    rw [hzero, Nat.zero_min]
  | some r => rfl

/-- **Every reply can be emitted completely.** -/
theorem Sending.drain (e : Env) {x₀ : Sent} {p : Peer}
    (hrun : Run (sendNext fd) (SendOk fd) x₀ x) (hp : x.s.conn fd = some p)
    (h : Sending i total x.out p x.s.pool) (hout : x.out < total) :
    ∃ x', Run (sendNext fd) (SendOk fd) x₀ x' ∧ x'.out = total := by
  -- Each call emits something, so what is left shrinks.
  induction hleft : total - x.out using Nat.strong_induction_on generalizing x p with
  | _ left ih =>
    have hok : SendOk fd x (fullCall e p) := by
      intro q hq
      cases hp.symm.trans hq
      exact fullCall_possible e p
    cases hret : ((fullCall e p).result p x.s).1 with
    | close => exact absurd hret (fullCall_ret e p x.s)
    | addEpollin =>
      obtain ⟨x', hs, hall, -⟩ := h.call_all hp (fullCall_possible e p) hret
      exact ⟨x', hrun.next hok hs, hall⟩
    | addEpollout =>
      obtain ⟨x', p', hs, hp', hsend, hout', hmore⟩ := h.call_more hp (fullCall_possible e p) hret
      rw [fullCall_out] at hmore
      have hgsize : 0 < GSIZE := by decide
      have hall := h.left
      exact ih (total - x'.out) (by omega) (hrun.next hok hs) hp' hsend hout' rfl

/-! ## 4. Requests for a file -/

/-- A connection of the data service on which nothing is under way. -/
structure IdlePeer (p : Peer) : Prop where
  svc : p.svc = .data
  recv : p.recvtask = none
  close : p.close = false
  contents : p.sendBuff.contents = []

theorem length_bytes (b : TaskBase) : b.bytes.length = BASE_SIZE := by
  simp [TaskBase.bytes, length_charField, intField]
  rfl

theorem length_rsp (status : UInt8) (b : TaskBase) :
    (createSigMsg CMD_GET_FILE_RSP status b.bytes BASE_SIZE).length = 828 := by
  have hmod : BASE_SIZE % 2 ^ 16 = b.bytes.length := by rw [length_bytes]; rfl
  rw [createSigMsg, hmod, List.length_append, List.take_length, length_bytes]
  rfl

/-- The file that `do_send_task` sends: the record of the reply. -/
def sentBase (e : Env) (base : TaskBase) : TaskBase := (sendStat e base).2.1

section Request

variable {cfg : Cfg} {e : Env} {fd : Fd} {base : TaskBase} {p : Peer} {s : Storage} {i : NodeId}
  {pool : Pool}

/-- The connection after `do_send_task`. -/
def filePeer (cfg : Cfg) (base : TaskBase) (p : Peer) (i : NodeId) (lfd : Nat) : Peer :=
  sendRsp cfg FILE_SYNC_DST_2_SRC base
    { p with
      sendLen := 0
      sendtask := some i
      sendBuff := mybuffSetfile p.sendBuff lfd 0 (toSize base.fsize)
      sockStat := .sendfileing }

/-- The pool after `do_send_task`. -/
def filePool (e : Env) (base : TaskBase) (p : Peer) (i : NodeId) (pool : Pool) : Pool :=
  e.set i .send ((pool.create i e.now base (sendSub { p with sendLen := 0 } base) none).over i
    OVER_UNKNOWN)

theorem doSendTask_file {lfd : Nat} (hstat : (sendStat e base).1 = .ok)
    (hget : e.get .home s.pool = some (i, pool)) (hopen : e.fs.openRead = some lfd) :
    (doSendTask cfg e fd base p s).conn fd = some (filePeer cfg (sentBase e base) p i lfd) ∧
      (doSendTask cfg e fd base p s).pool = filePool e (sentBase e base) p i pool := by
  have hget' : e.get .home (s.log (sendStat e base).2.2).pool = some (i, pool) := hget
  simp only [doSendTask, hstat, hget', openLocalfile4Read, hopen, ne_eq, not_true_eq_false,
    if_false]
  exact ⟨Function.update_self _ _ _, rfl⟩

theorem Mybuff.fileLeft_setdata {initBuffSize : Nat} (b : Mybuff) (d : List UInt8) :
    fileLeft (mybuffSetdata initBuffSize b d) = fileLeft b := by
  rw [fileLeft, Mybuff.getfile_setdata, fileLeft]

theorem fileLeft_setfile (b : Mybuff) (lfd size : Nat) :
    fileLeft (mybuffSetfile b lfd 0 size) = size := by
  unfold fileLeft mybuffGetfile mybuffSetfile
  by_cases hsize : 0 < size
  · simp [hsize]
  · simp [Nat.eq_zero_of_not_pos hsize]

theorem sending_start {size lfd : Nat} (hidle : IdlePeer p) (hsize : base.fsize = size)
    (hlt : size < 2 ^ 63) :
    Sending i (828 + size) 0 (filePeer cfg base p i lfd) (filePool e base p i pool) where
  svc := hidle.svc
  stat := rfl
  task := rfl
  recv := hidle.recv
  close := hidle.close
  size := by
    have hhead : (filePeer cfg base p i lfd).headlen = 828 := length_rsp _ _
    have hsub : ((filePool e base p i pool).node i).sub.processlen = size := by
      rw [filePool, (Env.node_set _ _ _ _).2]
      simp [Pool.over, Pool.modify, Pool.create, sendSub, hsize]
    rw [hhead, hsub]
    norm_cast
  left := by
    have hdata : (filePeer cfg base p i lfd).sendBuff.contents.length = 828 := by
      have happ := @Mybuff.contents_setdata cfg.initBuffSize
        (mybuffSetfile p.sendBuff lfd 0 (toSize base.fsize))
        (createSigMsg CMD_GET_FILE_RSP FILE_SYNC_DST_2_SRC base.bytes BASE_SIZE)
      rw [Mybuff.contents_setfile, hidle.contents, List.nil_append] at happ
      exact (congrArg List.length happ).trans (length_rsp _ _)
    have hfile : fileLeft (filePeer cfg base p i lfd).sendBuff = size := by
      have hfile := fileLeft_setfile p.sendBuff lfd (toSize base.fsize)
      rw [← @Mybuff.fileLeft_setdata cfg.initBuffSize _
        (createSigMsg CMD_GET_FILE_RSP FILE_SYNC_DST_2_SRC base.bytes BASE_SIZE)] at hfile
      refine hfile.trans ?_
      rw [hsize, toSize_of_nonneg (Int.natCast_nonneg size) (by omega), Int.toNat_natCast]
    rw [hdata, hfile, Nat.zero_add]
  sendLen := rfl

theorem overstatus_finished {o : UInt8} (h : Finished i o s) :
    (s.pool.node i).base.overstatus = o := by
  obtain ⟨e, pool, hpool⟩ := h
  rw [hpool, (Env.node_set _ _ _ _).1]
  simp [Pool.over, Pool.modify]

theorem countsAll_eq {total : Nat} (h : total < 2 ^ 63) :
    countsAll total = decide (total < 2 ^ 31) := by
  refine decide_eq_decide.mpr ?_
  rw [toInt64_of_lt (by omega) (by omega)]
  constructor
  · intro hle
    by_contra hlt
    have hshort := toInt32_lt_self (Nat.le_of_not_lt hlt)
    omega
  · intro hlt
    have hsame : toInt32 total = total := toInt32_of_lt (by omega) (by omega)
    omega

/-- A request that finds the file on an idle connection: `size` bytes are to be sent. -/
structure SendsFile (e : Env) (base : TaskBase) (p : Peer) (s : Storage) (i : NodeId) (size : Nat) :
    Prop where
  idle : IdlePeer p
  stat : (sendStat e base).1 = .ok
  task : ∃ pool, e.get .home s.pool = some (i, pool)
  opened : e.fs.openRead.isSome
  fsize : (sentBase e base).fsize = size
  offT : size < 2 ^ 63

/-- The state that `do_send_task` leaves, with nothing emitted. -/
def requested (cfg : Cfg) (e : Env) (fd : Fd) (base : TaskBase) (p : Peer) (s : Storage) : Sent :=
  ⟨doSendTask cfg e fd base p s, 0⟩

variable {size : Nat} {x : Sent}

theorem SendsFile.sending (h : SendsFile e base p s i size) :
    ∃ p', (requested cfg e fd base p s).s.conn fd = some p' ∧
      Sending i (828 + size) 0 p' (requested cfg e fd base p s).s.pool := by
  obtain ⟨lfd, hlfd⟩ := Option.isSome_iff_exists.mp h.opened
  obtain ⟨pool, hget⟩ := h.task
  obtain ⟨hconn, hpool⟩ := @doSendTask_file cfg e fd base p s i pool lfd h.stat hget hlfd
  refine ⟨_, hconn, ?_⟩
  rw [requested, hpool]
  exact sending_start h.idle h.fsize h.offT

/-- **The reply on its way**, after any calls of `do_send`. -/
theorem SendsFile.track (h : SendsFile e base p s i size)
    (hrun : Run (sendNext fd) (SendOk fd) (requested cfg e fd base p s) x) :
    Track fd i (828 + size) x := by
  obtain ⟨p', hp', hsend⟩ := @SendsFile.sending cfg e fd base p s i size h
  have hout : 0 < 828 + size := by omega
  exact hrun.inv (.sending p' hp' hsend hout) fun _ _ _ ht hok hs => ht.next hok hs

theorem SendsFile.emitted (h : SendsFile e base p s i size) :
    ∃ x, Run (sendNext fd) (SendOk fd) (requested cfg e fd base p s) x ∧ x.out = 828 + size := by
  obtain ⟨p', hp', hsend⟩ := @SendsFile.sending cfg e fd base p s i size h
  have hout : 0 < 828 + size := by omega
  exact hsend.drain e .start hp' hout

/-- **A completely sent file is reported as sent**, as long as head and file have less than `2^31`
    bytes. No call faults. -/
theorem sent_ok (h : SendsFile e base p s i size) (hlt : 828 + size < 2 ^ 31)
    (hrun : Run (sendNext fd) (SendOk fd) (requested cfg e fd base p s) x) :
    (x.out = 828 + size → Finished i OVER_OK x.s ∧ ReadyAgain fd x.s) ∧
      (Finished i OVER_SEND_LEN x.s → x.out < 828 + size) ∧
      (x.s.conn fd = none → Finished i OVER_SEND_LEN x.s) ∧
      ∀ p c, x.s.conn fd = some p → p.sockStat = .sendfileing → c.Possible p →
        (sendNext fd x c).isSome = true := by
  have hcount : countsAll (828 + size) = true := by
    rw [countsAll_eq (by omega)]
    exact decide_eq_true hlt
  cases h.track hrun with
  | sending p hp hsend hout =>
    refine ⟨fun hall => absurd hall (Nat.ne_of_lt hout), fun _ => hout, fun hnone => ?_, ?_⟩
    · cases hp.symm.trans hnone
    · intro q c hq _ hc
      cases hp.symm.trans hq
      obtain ⟨x', hs, -⟩ := hsend.call hp hc
      rw [hs]
      rfl
  | done hready hfin hout _ =>
    obtain ⟨p, hp, hidle, hrest⟩ := hready
    refine ⟨fun _ => ⟨hfin, p, hp, hidle, hrest⟩, fun hlen => ?_, fun hnone => ?_, ?_⟩
    · have hsame := (overstatus_finished hlen).symm.trans (overstatus_finished hfin)
      cases hsame
    · cases hp.symm.trans hnone
    · intro q c hq hstat _
      cases hp.symm.trans hq
      cases hidle.symm.trans hstat
  | short hp hfin hout =>
    obtain hout | ⟨-, hfalse⟩ := hout
    · refine ⟨fun hall => absurd hall (Nat.ne_of_lt hout), fun _ => hout, fun _ => hfin, ?_⟩
      intro q c hq
      cases hp.symm.trans hq
    · cases hcount.symm.trans hfalse

/-- **From `2^31` bytes on the count is negative or too small**: everything was emitted, and the
    task ends with OVER_SEND_LEN, the connection closed. -/
theorem sent_long (h : SendsFile e base p s i size) (hge : 2 ^ 31 ≤ 828 + size)
    (hlt : 828 + size < 2 ^ 63)
    (hrun : Run (sendNext fd) (SendOk fd) (requested cfg e fd base p s) x)
    (hout : x.out = 828 + size) :
    Finished i OVER_SEND_LEN x.s ∧ x.s.conn fd = none := by
  have hcount : countsAll (828 + size) = false := by
    rw [countsAll_eq hlt]
    exact decide_eq_false (Nat.not_lt.mpr hge)
  cases h.track hrun with
  | sending p hp hsend hless => exact absurd hout (Nat.ne_of_lt hless)
  | done _ _ _ htrue =>
    cases hcount.symm.trans htrue
  | short hp hfin _ => exact ⟨hfin, hp⟩

end Request

/-- A record of a file of the given size. -/
def sizedBase (size : Nat) : TaskBase :=
  { smallBase TASK_ADDFILE (ascii "/d/1/a") with fsize := size }

theorem sendsFile_sized {size : Nat} (hpos : 0 < size) (hlt : size < 2 ^ 63) :
    SendsFile (smallEnv 9) (sizedBase size) (Peer.init .data 2) Storage.init 2047 size := by
  have hsend : sendStat (smallEnv 9) (sizedBase size) = (.ok, sizedBase size, []) := by
    refine if_neg ?_
    rintro (h0 | hretry)
    · have hsize : (size : Int) = 0 := h0
      omega
    · exact hretry rfl
  refine ⟨⟨rfl, rfl, rfl, rfl⟩, ?_, ?_, rfl, ?_, hlt⟩
  · rw [hsend]
  · exact ⟨_, rfl⟩
  · rw [sentBase, hsend]
    rfl

theorem sent_ok_two : ∃ x, Run (sendNext 3) (SendOk 3)
      (requested smallCfg (smallEnv 9) 3 (sizedBase 2) (Peer.init .data 2) Storage.init) x ∧
    x.out = 828 + 2 ∧ Finished 2047 OVER_OK x.s ∧ ReadyAgain 3 x.s := by
  have hsends := sendsFile_sized (by decide : 0 < 2) (by decide)
  obtain ⟨x, hrun, hout⟩ := @SendsFile.emitted smallCfg _ 3 _ _ _ _ _ hsends
  exact ⟨x, hrun, hout, (sent_ok hsends (by decide) hrun).1 hout⟩

/-- A file that makes exactly `2^31` bytes with its head: all of it is emitted, and the task ends
    with OVER_SEND_LEN. -/
theorem sent_miscounted : ∃ x, Run (sendNext 3) (SendOk 3)
      (requested smallCfg (smallEnv 9) 3 (sizedBase (2 ^ 31 - 828)) (Peer.init .data 2)
        Storage.init) x ∧
    x.out = 828 + (2 ^ 31 - 828) ∧ Finished 2047 OVER_SEND_LEN x.s ∧ ¬ Finished 2047 OVER_OK x.s ∧
    x.s.conn 3 = none := by
  have hsends := sendsFile_sized (by decide : 0 < 2 ^ 31 - 828) (by decide)
  obtain ⟨x, hrun, hout⟩ := @SendsFile.emitted smallCfg _ 3 _ _ _ _ _ hsends
  obtain ⟨hfin, hnone⟩ := sent_long hsends (by decide) (by decide) hrun hout
  refine ⟨x, hrun, hout, hfin, fun hok => ?_, hnone⟩
  have hsame := (overstatus_finished hok).symm.trans (overstatus_finished hfin)
  cases hsame

end Pfs
