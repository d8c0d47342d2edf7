/-
  The agent that reports finished tasks to the POSS master (network/pfs_agent.c,
  `create_poss_head` of lib/pro_poss.c).

  A report goes from a task to `databuff`, from there in a frame to the send buffer of the
  connection, or, without a connection, to a file of the tmp directory, which is sent as the body of
  a frame later. The send buffer is a queue of bytes and one file range, and the bytes always go
  first: a frame that is queued while a file is being sent is sent in the middle of the file.

  Main results: `wireInv_step`, `wire_of_run`, `reply_inside_file`.
-/
import Pfs.PossFrames

namespace Pfs

open Lib List

/-! ## 1. Frames -/

/-- The four bytes of `htonl`. -/
def be32 (x : UInt32) : List UInt8 :=
  [UInt8.ofNat (x.toNat / 2 ^ 24), UInt8.ofNat (x.toNat / 2 ^ 16), UInt8.ofNat (x.toNat / 2 ^ 8),
    UInt8.ofNat x.toNat]

/-- `create_poss_head`; `datalen` is an `int`. -/
def createPossHead (cmdid : UInt32) (datalen : Int) (seq : UInt32) : List UInt8 :=
  be32 (UInt32.ofNat ((HEADSIZE + datalen) % 2 ^ 32).toNat) ++ be32 cmdid ++ be32 seq

structure Rec where
  id : Nat
  text : List UInt8
  deriving DecidableEq

/-- A frame; `recs` are the reports in its body, a mark. -/
structure PossFrame where
  cmdid : UInt32
  seq : UInt32
  body : List UInt8
  recs : List Rec
  deriving DecidableEq

/-- The head of a frame, as it is made from the length of the body. -/
def PossFrame.head (f : PossFrame) : List UInt8 :=
  createPossHead f.cmdid (toInt32 f.body.length) f.seq

def PossFrame.encode (f : PossFrame) : List UInt8 := f.head ++ f.body

def wireOf (fs : List PossFrame) : List UInt8 := (fs.map PossFrame.encode).flatten

/-- **What is asked of the bytes on the wire**: they are the beginning of the frames, in the order
    in which these were queued, and the length in a frame's head is the length of that frame. -/
structure OnWire (wire : List UInt8) (fs : List PossFrame) : Prop where
  order : wire <+: wireOf fs
  length : ∀ f ∈ fs, (ntohl f.encode).toNat = f.encode.length

theorem ntohl_be32 (x : UInt32) (rest : List UInt8) : ntohl (be32 x ++ rest) = x := by
  have hx := x.toNat_lt
  apply UInt32.toNat_inj.mp
  simp only [ntohl, be32, cons_append, nil_append, take_succ_cons, take_zero,
    foldl_cons, foldl_nil, UInt8.toNat_ofNat', UInt32.toNat_ofNat']
  omega

@[simp] theorem head_length (f : PossFrame) : f.head.length = HEADSIZE := rfl

theorem encode_length (f : PossFrame) : f.encode.length = HEADSIZE + f.body.length := by
  rw [PossFrame.encode, length_append, head_length]

theorem ntohl_encode {f : PossFrame} (h : HEADSIZE + f.body.length < 2 ^ 32) :
    (ntohl f.encode).toNat = f.encode.length := by
  rw [encode_length, PossFrame.encode, PossFrame.head, createPossHead, append_assoc,
    append_assoc, ntohl_be32, UInt32.toNat_ofNat']
  have hbmod : ((HEADSIZE : Int) + toInt32 f.body.length) % 2 ^ 32 = HEADSIZE + f.body.length := by
    unfold toInt32
    rw [Int.bmod_def]
    split <;> omega
  omega

theorem wireOf_append (fs : List PossFrame) (f : PossFrame) :
    wireOf (fs ++ [f]) = wireOf fs ++ f.encode := by
  simp [wireOf]

/-! ## 2. The agent -/

namespace Agent

/-- A file of the tmp directory; `recs` are the reports in it, a mark. -/
structure TmpFile where
  content : List UInt8
  recs : List Rec

/-- The agent: whether it is connected, the send buffer of the connection, what is behind the
    descriptor of its file range, `g_tmp_files` from `g_tmp_index` on downwards, `defconn`,
    `databuff`, the tmp directory and the number of the next frame.

    Marks: what was written to the socket of this connection, the frames queued on it, the reports
    in `databuff`, all reports ever made, and what was written and queued on the earlier
    connections. -/
structure AgentSt where
  up : Bool
  send : Mybuff
  file : List UInt8
  todo : List Path
  defconn : Mybuff
  databuff : Mybuff
  dir : Path → Option TmpFile
  seq : UInt32
  wire : List UInt8
  frames : List PossFrame
  data : List Rec
  produced : List Rec
  past : List (List UInt8 × List PossFrame)

/-- What `send` or `sendfile64` does in the end: it takes `n + 1` bytes or all there are, it would
    block, or it fails. -/
inductive IoRes where
  | sent (n : Nat)
  | again
  | error
  deriving DecidableEq

/-- The calls of the agent's main loop, with what the system answers. -/
inductive AgentAct where
  /-- The connection is made, on a descriptor whose buffer held `old`; `scantmpdir` finds `todo`. -/
  | connect (old : Mybuff) (todo : List Path)
  /-- The connection fails: `do_scan`, then `dump_to_file` to `name`. `write` is what is written,
      `none` for an error. -/
  | offline (texts : List (List UInt8)) (name : Path) (openOk : Bool) (write : Option Nat)
  /-- `get_most_old_file`; `fd` is what `open` returns, less one. -/
  | oldFile (fd : Option Nat)
  /-- `do_scan` on a connection: the texts of the tasks in TASK_Q_CLEAN. -/
  | scan (texts : List (List UInt8))
  /-- `do_hb` -/
  | beat (stat : UInt8)
  /-- `do_request` answers. -/
  | reply (body : List UInt8)
  /-- `do_send` -/
  | send (data file : IoRes) (unlinked : Bool)
  /-- The peer is gone, or `select` or `recv` fails. -/
  | close

section Step

variable (init : Nat)

/-- Reports `rs` come to `databuff`, which is `d` then. -/
def AgentSt.collected (s : AgentSt) (d : Mybuff) (rs : List Rec) : AgentSt :=
  { s with databuff := d, data := s.data ++ rs, produced := s.produced ++ rs }

/-- `get_data_from_task` for every task of TASK_Q_CLEAN. -/
def collect (s : AgentSt) : List (List UInt8) → AgentSt
  | [] => s
  | text :: texts =>
    collect (s.collected (mybuffSetdata init s.databuff text) [⟨s.produced.length, text⟩]) texts

def AgentSt.mark (s : AgentSt) (f : PossFrame) : AgentSt :=
  { s with seq := s.seq + 1, frames := s.frames ++ [f] }

def queueFrame (s : AgentSt) (f : PossFrame) : AgentSt :=
  { s.mark f with send := mybuffSetdata init (mybuffSetdata init s.send f.head) f.body }

/-- `do_scan` with `type` 1. -/
def doScan (s : AgentSt) (texts : List (List UInt8)) : AgentSt :=
  let s := collect init s texts
  match mybuffGetdata s.databuff with
  | none => s
  | some data =>
    { queueFrame init s ⟨REQ_SUBMIT, s.seq, data, s.data⟩ with
      databuff := mybuffSkipdata s.databuff data.length
      data := [] }

/-- `do_hb` -/
def doHb (s : AgentSt) (stat : UInt8) : AgentSt :=
  let f : PossFrame := ⟨REQ_HEARTBEAT, s.seq, [stat], []⟩
  { s.mark f with send := mybuffSetdata init s.send f.encode }

/-- The end of `do_request`. -/
def doReply (s : AgentSt) (body : List UInt8) : AgentSt :=
  if body = [] then s else queueFrame init s ⟨RSP_PFS_CMD, s.seq, body, []⟩

/-- `get_most_old_file` -/
def getMostOldFile (s : AgentSt) (fd : Option Nat) : AgentSt :=
  match mybuffGetfile s.send, s.todo.head?.bind s.dir, fd with
  | none, some f, some fd =>
    let fr : PossFrame := ⟨REQ_SUBMIT, s.seq, f.content, f.recs⟩
    { s.mark fr with
      send := mybuffSetfile (mybuffSetdata init s.send fr.head) (fd + 1) 0 f.content.length
      file := f.content }
  | _, _, _ => s

/-- `rm_last_send_file` -/
def rmLastSendFile (s : AgentSt) (unlinked : Bool) : AgentSt :=
  match s.todo with
  | [] => s
  | name :: todo =>
    { s with todo := todo, dir := if unlinked then Function.update s.dir name none else s.dir }

/-- The connection is closed. What its buffer holds is not looked at any more. -/
def AgentSt.closed (s : AgentSt) : AgentSt :=
  { s with up := false, past := s.past ++ [(s.wire, s.frames)] }

def GSIZE : Nat := 1073741824

/-- The second half of `do_send`: the file. -/
def sendFile (s : AgentSt) (res : IoRes) (unlinked : Bool) : AgentSt :=
  match mybuffGetfile s.send with
  | none => s
  | some (_, start, len) =>
    match res with
    | .error => s.closed
    | .again => s
    | .sent n =>
      let k := min (n + 1) (min len GSIZE)
      let s' := { s with
        wire := s.wire ++ (s.file.drop start.toNat).take k
        send := mybuffSkipfile s.send k }
      if k < len then s' else rmLastSendFile s' unlinked

/-- `do_send`; SOCK_CLOSE ends the connection. -/
def doSend (s : AgentSt) (data file : IoRes) (unlinked : Bool) : AgentSt :=
  match mybuffGetdata s.send with
  | none => sendFile s file unlinked
  | some bytes =>
    match data with
    | .error => s.closed
    | .again => s
    | .sent n =>
      let k := min (n + 1) bytes.length
      let s' := { s with wire := s.wire ++ bytes.take k, send := mybuffSkipdata s.send k }
      if k < bytes.length then s' else sendFile s' file unlinked

/-- The reports of which all bytes are among the first `n`. -/
def fitting : Nat → List Rec → List Rec
  | _, [] => []
  | n, r :: rs => if r.text.length ≤ n then r :: fitting (n - r.text.length) rs else []

/-- `O_CREAT` with `O_APPEND`, then `write`. -/
def appendFile (dir : Path → Option TmpFile) (name : Path) (data : List UInt8) (recs : List Rec) :
    Path → Option TmpFile :=
  let old := (dir name).getD ⟨[], []⟩
  Function.update dir name (some ⟨old.content ++ data, old.recs ++ recs⟩)

/-- `dump_to_file` of what is in `defconn`. The result of `write` is a `size_t`: an error skips
    everything. -/
def dumpToFile (s : AgentSt) (recs : List Rec) (name : Path) (openOk : Bool) (write : Option Nat) :
    AgentSt :=
  match openOk, mybuffGetdata s.defconn with
  | true, some data =>
    match write with
    | none => { s with
        defconn := mybuffSkipdata s.defconn (2 ^ 64 - 1)
        dir := appendFile s.dir name [] [] }
    | some k => { s with
        defconn := mybuffSkipdata s.defconn (min k data.length)
        dir := appendFile s.dir name (data.take k) (fitting k recs) }
  | true, none => { s with dir := appendFile s.dir name [] [] }
  | false, _ => s

def offlineRound (s : AgentSt) (texts : List (List UInt8)) (name : Path) (openOk : Bool)
    (write : Option Nat) : AgentSt :=
  let s := collect init { s with defconn := mybuffReinit init s.defconn } texts
  match mybuffGetdata s.databuff with
  | none => s
  | some data =>
    dumpToFile { s with
      defconn := mybuffSetdata init s.defconn data
      databuff := mybuffSkipdata s.databuff data.length
      data := [] } s.data name openOk write

/-- A call of the loop. Only `.connect` and `.offline` happen without a connection. -/
def agentNext (s : AgentSt) : AgentAct → Option AgentSt
  | .connect old todo =>
    if s.up then none
    else some { s with
      up := true, send := mybuffReinit init old, file := [], todo := todo, wire := []
      frames := [] }
  | .offline texts name openOk write =>
    if s.up then none else some (offlineRound init s texts name openOk write)
  | .oldFile fd => if s.up then some (getMostOldFile init s fd) else none
  | .scan texts => if s.up then some (doScan init s texts) else none
  | .beat stat => if s.up then some (doHb init s stat) else none
  | .reply body => if s.up then some (doReply init s body) else none
  | .send data file unlinked => if s.up then some (doSend s data file unlinked) else none
  | .close => if s.up then some s.closed else none

/-- All that a step can do, and when. -/
inductive AgentStep (s : AgentSt) : AgentAct → AgentSt → Prop where
  | connect (hdown : ¬ s.up = true) (old : Mybuff) (todo : List Path) :
      AgentStep s (.connect old todo) { s with
        up := true, send := mybuffReinit init old, file := [], todo := todo, wire := []
        frames := [] }
  | offline (hdown : ¬ s.up = true) (texts : List (List UInt8)) (name : Path) (openOk : Bool)
      (write : Option Nat) : AgentStep s (.offline texts name openOk write)
        (offlineRound init s texts name openOk write)
  | oldFile (hup : s.up = true) (fd : Option Nat) :
      AgentStep s (.oldFile fd) (getMostOldFile init s fd)
  | scan (hup : s.up = true) (texts : List (List UInt8)) :
      AgentStep s (.scan texts) (doScan init s texts)
  | beat (hup : s.up = true) (stat : UInt8) : AgentStep s (.beat stat) (doHb init s stat)
  | reply (hup : s.up = true) (body : List UInt8) :
      AgentStep s (.reply body) (doReply init s body)
  | send (hup : s.up = true) (data file : IoRes) (unlinked : Bool) :
      AgentStep s (.send data file unlinked) (doSend s data file unlinked)
  | close (hup : s.up = true) : AgentStep s .close s.closed

variable {init} in
theorem agentNext_cases {s s' : AgentSt} {a : AgentAct} (hs : agentNext init s a = some s') :
    AgentStep init s a s' := by
  cases a with
  | connect | offline =>
    obtain ⟨hdown, hs⟩ := Option.ite_none_left_eq_some.mp hs
    cases hs
    constructor
    exact hdown
  | oldFile | scan | beat | reply | send | close =>
    obtain ⟨hup, hs⟩ := Option.ite_none_right_eq_some.mp hs
    cases hs
    constructor
    exact hup

end Step

/-- The agent at its start, with the tmp directory as it is. -/
def AgentSt.init (dir : Path → Option (List UInt8)) : AgentSt where
  up := false
  send := mybuffInit
  file := []
  todo := []
  defconn := mybuffInit
  databuff := mybuffInit
  dir := fun name => (dir name).map fun content => ⟨content, []⟩
  seq := 1
  wire := []
  frames := []
  data := []
  produced := []
  past := []

/-! ## 3. What is on the wire -/

def AgentSt.pending (s : AgentSt) : List UInt8 :=
  match mybuffGetfile s.send with
  | none => []
  | some (_, start, len) => (s.file.drop start.toNat).take len

/-- Nothing is queued while a file is pending, and no body is too long for its head. -/
def Undisturbed (s : AgentSt) : AgentAct → Prop
  | .scan texts => mybuffGetfile s.send = none ∧
      HEADSIZE + (s.databuff.contents ++ texts.flatten).length < 2 ^ 32
  | .beat _ => mybuffGetfile s.send = none
  | .reply body => mybuffGetfile s.send = none ∧ HEADSIZE + body.length < 2 ^ 32
  | .oldFile _ => ∀ f ∈ s.todo.head?.bind s.dir, HEADSIZE + f.content.length < 2 ^ 32
  | _ => True

/-- The invariant of a connection: what is on the wire and what is to be sent make up the frames. -/
structure WireInv (s : AgentSt) : Prop where
  whole : s.wire ++ s.send.contents ++ s.pending = wireOf s.frames
  length : ∀ f ∈ s.frames, (ntohl f.encode).toNat = f.encode.length
  range : ∀ fd start len, mybuffGetfile s.send = some (fd, start, len) →
    0 ≤ start ∧ start.toNat + len = s.file.length

section Wire

variable {init : Nat} {s s' : AgentSt}

theorem pending_of_none (h : mybuffGetfile s.send = none) : s.pending = [] := by
  unfold AgentSt.pending
  rw [h]

theorem pending_of_some {fd start : Int} {len : Nat}
    (h : mybuffGetfile s.send = some (fd, start, len)) :
    s.pending = (s.file.drop start.toNat).take len := by
  unfold AgentSt.pending
  rw [h]

theorem WireInv.congr (hI : WireInv s) (h : s'.send = s.send ∧ s'.wire = s.wire ∧
    s'.frames = s.frames ∧ s'.file = s.file) : WireInv s' := by
  obtain ⟨hsend, hwire, hframes, hfile⟩ := h
  refine ⟨?_, ?_, ?_⟩
  · unfold AgentSt.pending
    rw [hsend, hwire, hframes, hfile]
    exact hI.whole
  · rw [hframes]
    exact hI.length
  · rw [hsend, hfile]
    exact hI.range

theorem WireInv.append (hI : WireInv s) (hfile : mybuffGetfile s.send = none) {f : PossFrame}
    (hlen : HEADSIZE + f.body.length < 2 ^ 32) (hframes : s'.frames = s.frames ++ [f])
    (hwire : s'.wire = s.wire) (hsend : s'.send.contents = s.send.contents ++ f.encode)
    (hfile' : mybuffGetfile s'.send = none) : WireInv s' := by
  constructor
  case whole =>
    have hw := hI.whole
    rw [pending_of_none hfile, append_nil] at hw
    rw [pending_of_none hfile', append_nil, hframes, wireOf_append, hwire, hsend, ← append_assoc,
      hw]
  case length =>
    intro g hg
    rw [hframes] at hg
    obtain hg | hg := mem_append.mp hg
    · exact hI.length g hg
    · rw [mem_singleton.mp hg]
      exact ntohl_encode hlen
  case range =>
    intro fd start len h
    rw [hfile'] at h
    cases h

theorem collect_spec (init : Nat) (texts : List (List UInt8)) (s : AgentSt) :
    ∃ d rs, collect init s texts = s.collected d rs ∧
      d.contents = s.databuff.contents ++ texts.flatten ∧ rs.map Rec.text = texts := by
  induction texts generalizing s with
  | nil =>
    refine ⟨s.databuff, [], ?_, by simp, rfl⟩
    simp [collect, AgentSt.collected]
  | cons text texts ih =>
    obtain ⟨d, rs, he, hd, ht⟩ :=
      ih (s.collected (mybuffSetdata init s.databuff text) [⟨s.produced.length, text⟩])
    refine ⟨d, ⟨s.produced.length, text⟩ :: rs, ?_, ?_, by rw [map_cons, ht]⟩
    · unfold collect
      rw [he]
      simp [AgentSt.collected]
    · rw [hd]
      simp [AgentSt.collected]

theorem wireInv_doScan (hI : WireInv s) {texts : List (List UInt8)}
    (h : Undisturbed s (.scan texts)) : WireInv (doScan init s texts) := by
  obtain ⟨hfile, hlen⟩ := h
  obtain ⟨d, rs, he, hd, -⟩ := collect_spec init texts s
  simp only [doScan, he]
  cases hg : mybuffGetdata (s.collected d rs).databuff with
  | none => exact hI.congr ⟨rfl, rfl, rfl, rfl⟩
  | some data =>
    obtain ⟨hcont, -⟩ := Mybuff.contents_of_getdata hg
    have hdata : data = s.databuff.contents ++ texts.flatten := hcont.symm.trans hd
    exact hI.append hfile (f := ⟨REQ_SUBMIT, s.seq, data, s.data ++ rs⟩)
      (by rw [hdata]; exact hlen) rfl rfl
      (by simp [queueFrame, PossFrame.encode, AgentSt.collected])
      (by simp [queueFrame, AgentSt.collected, hfile])

theorem wireInv_getMostOldFile (hI : WireInv s) {fd : Option Nat}
    (h : Undisturbed s (.oldFile fd)) : WireInv (getMostOldFile init s fd) := by
  unfold getMostOldFile
  cases hfile : mybuffGetfile s.send with
  | some x => exact hI
  | none =>
    cases hf : s.todo.head?.bind s.dir with
    | none => exact hI
    | some f =>
      cases fd with
      | none => exact hI
      | some fd =>
        have hlen := h f hf
        have hw := hI.whole
        rw [pending_of_none hfile, append_nil] at hw
        simp only
        constructor
        case whole =>
          have hpending : ∀ s' : AgentSt, s'.file = f.content →
              s'.send = mybuffSetfile (mybuffSetdata init s.send
                (PossFrame.head ⟨REQ_SUBMIT, s.seq, f.content, f.recs⟩)) (fd + 1) 0
                f.content.length →
              s'.pending = f.content := by
            intro s' hfile' hsend'
            unfold AgentSt.pending
            rw [hfile', hsend']
            by_cases h0 : 0 < f.content.length
            · have : (0 : Int) ≤ fd + 1 := by omega
              simp [mybuffGetfile, mybuffSetfile, this, h0]
            · have hnil : f.content = [] := length_eq_zero_iff.mp (by omega)
              simp [mybuffGetfile, mybuffSetfile, hnil]
          rw [hpending _ rfl rfl]
          simp only [AgentSt.mark, Mybuff.contents_setfile, Mybuff.contents_setdata]
          rw [wireOf_append, ← hw, PossFrame.encode]
          simp only [append_assoc]
        case length =>
          intro g hg
          obtain hg | hg := mem_append.mp hg
          · exact hI.length g hg
          · rw [mem_singleton.mp hg]
            exact ntohl_encode hlen
        case range =>
          intro fd' start len hget
          cases Mybuff.getfile_setfile hget
          exact ⟨Int.le_refl _, Nat.zero_add _⟩

/-- Only the list of files and the directory change. -/
theorem rmLastSendFile_eq (s : AgentSt) (unlinked : Bool) :
    ∃ todo dir, rmLastSendFile s unlinked = { s with todo := todo, dir := dir } := by
  unfold rmLastSendFile
  split
  · exact ⟨s.todo, s.dir, rfl⟩
  · exact ⟨_, _, rfl⟩

theorem wireInv_sendFile (hI : WireInv s) (hempty : s.send.contents = []) (res : IoRes)
    (unlinked : Bool) : WireInv (sendFile s res unlinked) := by
  cases hfile : mybuffGetfile s.send with
  | none =>
    simp only [sendFile, hfile]
    exact hI
  | some x =>
    obtain ⟨fd, start, len⟩ := x
    obtain ⟨h0, hlen⟩ := hI.range fd start len hfile
    have hw := hI.whole
    rw [hempty, append_nil, pending_of_some hfile] at hw
    simp only [sendFile, hfile]
    cases res with
    | error => exact hI.congr ⟨rfl, rfl, rfl, rfl⟩
    | again => exact hI
    | sent n =>
      have hk : min (n + 1) (min len GSIZE) ≤ len :=
        Nat.le_trans (Nat.min_le_right _ _) (Nat.min_le_left _ _)
      simp only
      generalize min (n + 1) (min len GSIZE) = k at *
      set s' : AgentSt := { s with
        wire := s.wire ++ (s.file.drop start.toNat).take k
        send := mybuffSkipfile s.send k } with hs'
      have hcont : s'.send.contents = [] := by rw [hs', Mybuff.contents_skipfile, hempty]
      by_cases hlt : k < len
      · rw [if_pos hlt]
        have hfile' := Mybuff.getfile_skipfile_lt hfile hlt
        have hstart : (start + k).toNat = start.toNat + k := by omega
        constructor
        case whole =>
          rw [hcont, append_nil, pending_of_some hfile', hstart, ← hw, append_assoc, ← drop_drop]
          congr 1
          have hsplit := take_append_drop k ((s.file.drop start.toNat).take len)
          rw [take_take, Nat.min_eq_left hk, drop_take] at hsplit
          exact hsplit
        case length => exact hI.length
        case range =>
          intro fd' start' len' hget
          cases hfile'.symm.trans hget
          refine ⟨by omega, ?_⟩
          change (start + k).toNat + (len - k) = s.file.length
          omega
      · rw [if_neg hlt]
        have hkl : k = len := by omega
        obtain ⟨_, _, hrm⟩ := rmLastSendFile_eq s' unlinked
        rw [hrm]
        refine WireInv.congr (s := s') ?_ ⟨rfl, rfl, rfl, rfl⟩
        have hfile' := Mybuff.getfile_skipfile_le hfile (Nat.le_of_eq hkl.symm)
        constructor
        case whole =>
          rw [hcont, append_nil, pending_of_none hfile', append_nil, ← hw, ← hkl]
        case length => exact hI.length
        case range =>
          intro fd' start' len' hget
          cases hfile'.symm.trans hget

theorem WireInv.sendData (hI : WireInv s) (k : Nat) :
    WireInv { s with
      wire := s.wire ++ s.send.contents.take k, send := mybuffSkipdata s.send k } := by
  refine ⟨?_, hI.length, ?_⟩
  · have hw := hI.whole
    unfold AgentSt.pending at hw ⊢
    simp only [Mybuff.contents_skipdata, Mybuff.getfile_skipdata]
    rw [← hw, append_assoc s.wire, take_append_drop]
  · simp only [Mybuff.getfile_skipdata]
    exact hI.range

theorem wireInv_doSend (hI : WireInv s) (data file : IoRes) (unlinked : Bool) :
    WireInv (doSend s data file unlinked) := by
  cases hd : mybuffGetdata s.send with
  | none =>
    simp only [doSend, hd]
    exact wireInv_sendFile hI (Mybuff.contents_of_getdata_none hd) file unlinked
  | some bytes =>
    obtain ⟨hcont, -⟩ := Mybuff.contents_of_getdata hd
    simp only [doSend, hd]
    cases data with
    | error => exact hI.congr ⟨rfl, rfl, rfl, rfl⟩
    | again => exact hI
    | sent n =>
      simp only
      rw [← hcont]
      generalize min (n + 1) s.send.contents.length = k
      by_cases hlt : k < s.send.contents.length
      · rw [if_pos hlt]
        exact hI.sendData k
      rw [if_neg hlt]
      refine wireInv_sendFile (hI.sendData k) ?_ file unlinked
      rw [Mybuff.contents_skipdata]
      exact drop_eq_nil_of_le (Nat.not_lt.mp hlt)

/-- A round without a connection leaves the marks of the connections alone. -/
theorem offlineRound_eq (init : Nat) (s : AgentSt) (texts : List (List UInt8)) (name : Path)
    (openOk : Bool) (write : Option Nat) : ∃ c d rs all dir,
      offlineRound init s texts name openOk write = { s with
        defconn := c, databuff := d, data := rs, produced := all, dir := dir } := by
  obtain ⟨d, rs, he, -, -⟩ :=
    collect_spec init texts { s with defconn := mybuffReinit init s.defconn }
  simp only [offlineRound, he, dumpToFile]
  repeat' split
  all_goals exact ⟨_, _, _, _, _, rfl⟩

/-- **Every step keeps the wire in order** unless it queues a frame while a file is pending. -/
theorem wireInv_step {a : AgentAct} (hI : WireInv s) (hok : Undisturbed s a)
    (hs : agentNext init s a = some s') : WireInv s' := by
  cases agentNext_cases hs with
  | connect hdown old todo =>
    refine ⟨?_, nofun, ?_⟩
    · simp [AgentSt.pending, wireOf]
    · intro fd start len h
      rw [Mybuff.getfile_reinit] at h
      cases h
  | offline hdown texts name openOk write =>
    obtain ⟨_, _, _, _, _, he⟩ := offlineRound_eq init s texts name openOk write
    rw [he]
    exact hI.congr ⟨rfl, rfl, rfl, rfl⟩
  | oldFile hup fd => exact wireInv_getMostOldFile hI hok
  | scan hup texts => exact wireInv_doScan hI hok
  | beat hup stat =>
    have hfile : mybuffGetfile s.send = none := hok
    exact hI.append hfile (f := ⟨REQ_HEARTBEAT, s.seq, [stat], []⟩)
      (by simp [HEADSIZE]) rfl rfl (by simp [doHb]) (by simp [doHb, hfile])
  | reply hup body =>
    obtain ⟨hfile, hlen⟩ := hok
    unfold doReply
    split
    · exact hI
    · exact hI.append hfile (f := ⟨RSP_PFS_CMD, s.seq, body, []⟩) hlen rfl rfl
        (by simp [queueFrame, PossFrame.encode]) (by simp [queueFrame, hfile])
  | send hup data file unlinked => exact wireInv_doSend hI data file unlinked
  | close hup => exact hI.congr ⟨rfl, rfl, rfl, rfl⟩

theorem sendFile_past (s : AgentSt) (res : IoRes) (unlinked : Bool) :
    (sendFile s res unlinked).past = s.past ∨ (sendFile s res unlinked).past =
      s.past ++ [((sendFile s res unlinked).wire, (sendFile s res unlinked).frames)] := by
  unfold sendFile
  split
  · exact .inl rfl
  split
  · exact .inr rfl
  · exact .inl rfl
  simp only
  split
  · exact .inl rfl
  · obtain ⟨_, _, hrm⟩ := rmLastSendFile_eq { s with
      wire := _, send := mybuffSkipfile s.send _ } unlinked
    rw [hrm]
    exact .inl rfl

/-- What a step adds to the earlier connections is what it leaves on the wire. -/
theorem past_step {a : AgentAct} (hs : agentNext init s a = some s') :
    s'.past = s.past ∨ s'.past = s.past ++ [(s'.wire, s'.frames)] := by
  cases agentNext_cases hs with
  | connect | beat => exact .inl rfl
  | offline hdown texts name openOk write =>
    obtain ⟨_, _, _, _, _, he⟩ := offlineRound_eq init s texts name openOk write
    exact .inl (by rw [he])
  | oldFile hup fd =>
    unfold getMostOldFile
    split <;> exact .inl rfl
  | scan hup texts =>
    obtain ⟨d, rs, he, -, -⟩ := collect_spec init texts s
    simp only [doScan, he]
    split <;> exact .inl rfl
  | reply hup body =>
    unfold doReply
    split <;> exact .inl rfl
  | send hup data file unlinked =>
    unfold doSend
    split
    · exact sendFile_past ..
    split
    · exact .inr rfl
    · exact .inl rfl
    simp only
    split
    · exact .inl rfl
    · exact sendFile_past ..
  | close => exact .inr rfl

theorem WireInv.onWire (hI : WireInv s) : OnWire s.wire s.frames := by
  refine ⟨?_, hI.length⟩
  rw [← hI.whole, append_assoc]
  exact prefix_append _ _

theorem wireInv_init (dir : Path → Option (List UInt8)) : WireInv (AgentSt.init dir) :=
  ⟨rfl, nofun, nofun⟩

/-- **Frames are contiguous on the wire** of every connection in every run that queues nothing while
    a file is pending. -/
theorem wire_of_run {dir : Path → Option (List UInt8)}
    (h : Run (agentNext init) Undisturbed (AgentSt.init dir) s) :
    OnWire s.wire s.frames ∧ ∀ p ∈ s.past, OnWire p.1 p.2 := by
  have hI := h.inv (I := fun s => WireInv s ∧ ∀ p ∈ s.past, OnWire p.1 p.2)
    ⟨wireInv_init dir, nofun⟩ fun s t a hI hok hs => by
      have hw := wireInv_step hI.1 hok hs
      refine ⟨hw, ?_⟩
      rcases past_step hs with he | he <;> rw [he]
      · exact hI.2
      · exact forall_mem_append.mpr ⟨hI.2, forall_mem_singleton.mpr hw.onWire⟩
  exact ⟨hI.1.onWire, hI.2⟩

end Wire

/-! ## 4. A reply inside a file -/

instance (s : AgentSt) (a : AgentAct) : Decidable (Undisturbed s a) :=
  match a with
  | .scan _ | .reply _ => inferInstanceAs (Decidable (_ ∧ _))
  | .beat _ => inferInstanceAs (Decidable (_ = _))
  | .oldFile _ =>
    match h : s.todo.head?.bind s.dir with
    | none => isTrue fun _ hf => by rw [h] at hf; cases hf
    | some f => decidable_of_iff (HEADSIZE + f.content.length < 2 ^ 32)
        ⟨fun hlt g hg => by rw [h] at hg; cases hg; exact hlt, fun hall => hall f h⟩
  | .connect _ _ | .offline _ _ _ _ | .send _ _ _ | .close => isTrue trivial

def oneFile (name : Path) : Option (List UInt8) :=
  if name = ascii "t" then some (ascii "abc\n") else none

def afterActs (acts : List AgentAct) : AgentSt :=
  (exec (agentNext 65536) (AgentSt.init oneFile) acts).getD (AgentSt.init oneFile)

/-- The file is sent in two parts, and a reply comes after it. -/
def replyAfterFile : List AgentAct :=
  [.connect mybuffInit [ascii "t"], .oldFile (some 6), .send (.sent 11) (.sent 0) true,
    .send (.sent 0) (.sent 9) true, .reply (ascii "x"), .send (.sent 12) .again true]

/-- The reply comes after the first part. -/
def replyInFile : List AgentAct :=
  [.connect mybuffInit [ascii "t"], .oldFile (some 6), .send (.sent 11) (.sent 0) true,
    .reply (ascii "x"), .send (.sent 12) .again true]

theorem wire_of_run_file :
    OnWire (afterActs replyAfterFile).wire (afterActs replyAfterFile).frames ∧
      (afterActs replyAfterFile).wire.length = 29 :=
  ⟨(@wire_of_run 65536 _ oneFile (run_of_exec replyAfterFile .start (by decide +kernel) rfl)).1,
    by decide +kernel⟩

/-- **A reply goes in front of the rest of a file** that is being sent: what is on the wire is not
    the beginning of the two frames. -/
theorem reply_inside_file :
    ∃ s, Reach (agentNext 65536) (AgentSt.init oneFile) s ∧ s.up = true ∧
      ¬ OnWire s.wire s.frames :=
  ⟨afterActs replyInFile, reach_of_exec replyInFile .start rfl, rfl,
    fun h => absurd h.order (by decide +kernel)⟩

end Agent

end Pfs
