/-
  What the POSS master stores (`svc_recv`, `check_req` of network/POSS/pfs_poss.c,
  `process_data_req`, `sub_recv`, `check_close_local` of pfs_poss_sub.c).

  The body of a report is written as it comes, all other frames wait until they are complete; the
  four functions tell each other by their return codes what is to be done next.

  Main results: `reports_stored`, `big_buffer_stalls`.
-/
import Pfs.Agent

namespace Pfs.Poss

open Lib List

/-! ## 1. One connection of the master -/

/-- What the master does, as far as it can be seen outside. -/
inductive Report where
  /-- a report file is opened -/
  | opened
  | wrote (bytes : List UInt8)
  /-- the report file is closed and moved away -/
  | closed
  /-- any other frame is handled -/
  | handled (cmdid : UInt32) (body : List UInt8)
  deriving DecidableEq

structure Master where
  st : MasterSt
  events : List Report

/-- What `sub_recv` appends, and whether it closes the file. -/
def subWrote (s : MasterSt) (e : MasterEnv) : List Report :=
  if s.syncing = false ∨ s.buf = [] then []
  else
    let datalen := min s.buf.length (toSize (toInt32 (s.datalen - s.recvlen)))
    match e.write with
    | none => []
    | some k =>
      let n := toInt32 (min k datalen : Nat)
      if n < 0 then []
      else
        .wrote (s.buf.take n.toNat) ::
          if ¬ toInt32 (s.recvlen + n) < s.datalen ∧ s.file ∧ e.expired then [.closed] else []

inductive RoundEnd where
  /-- 0 or RECV_ADD_EPOLLOUT: the loop goes on -/
  | again
  /-- -1 or RECV_ADD_EPOLLIN -/
  | wait
  | close
  deriving DecidableEq

/-- What the loop makes of the code that `sub_recv` returns. -/
def roundOf : RecvEnd → RoundEnd
  | .addEpollout => .again
  | .addEpollin => .wait
  | .close => .close

/-- The connection when `process_data_req` calls `sub_recv`. -/
def submitted (s : MasterSt) (h : PossHead) : MasterSt :=
  ⟨s.buf.drop HEADSIZE, true, toInt32 h.bodylen, 0, true⟩

/-- `check_req` once there is a head. -/
def roundHandle (s : MasterSt) (e : MasterEnv) (h : PossHead) :
    RoundEnd × MasterSt × List Report :=
  if h.cmdid = REQ_HEARTBEAT ∨ h.cmdid = RSP_PFS_CMD ∨ h.cmdid = REQ_AUTH then
    if s.buf.length < h.totallen.toNat then (.wait, s, [])
    else
      (.again, { s with buf := s.buf.drop h.totallen.toNat },
        [.handled h.cmdid ((s.buf.drop HEADSIZE).take h.bodylen)])
  else if h.cmdid = REQ_SUBMIT then
    if s.file = false ∧ e.openOk = false then (.close, s, [])
    else
      let r := subRecv (submitted s h) e
      (roundOf r.2.1, r.2.2, (if s.file then [] else [.opened]) ++ subWrote (submitted s h) e)
  else (.close, s, [])

/-- `check_req`: how the loop goes on, the connection, and what was done. -/
def masterRound (s : MasterSt) (e : MasterEnv) : RoundEnd × MasterSt × List Report :=
  (parseMsg s.buf).elim (.wait, s, []) (roundHandle s e)

/-- The loop of `svc_recv`, at most `fuel` rounds; round `n` meets `env n`. -/
def recvLoop (env : Nat → MasterEnv) : Nat → Nat → Master → Option (RecvEnd × Master)
  | 0, _, _ => none
  | fuel + 1, n, x =>
    let r := masterRound x.st (env n)
    let x' : Master := ⟨r.2.1, x.events ++ r.2.2⟩
    if r.1 = .again then recvLoop env fuel (n + 1) x'
    else some (if r.1 = .wait then .addEpollin else .close, x')

/-- `svc_recv` -/
def svcRecv (env : Nat → MasterEnv) (x : Master) : Option (RecvEnd × Master) :=
  if x.st.syncing = false then recvLoop env (x.st.buf.length + 1) 0 x
  else
    let r := subRecv x.st (env 0)
    let x' : Master := ⟨r.2.2, x.events ++ subWrote x.st (env 0)⟩
    if r.2.1 = .addEpollout then recvLoop env (x'.st.buf.length + 1) 1 x' else some (r.2.1, x')

/-- Bytes, or the timer. -/
inductive Arrival where
  /-- bytes come, and `svc_recv` is called -/
  | chunk (bytes : List UInt8) (env : Nat → MasterEnv)
  /-- `svc_timeout`: a file that is due is closed, unless a body is under way -/
  | timeout (expired : Bool)

def Arrival.bytes : Arrival → List UInt8
  | .chunk bytes _ => bytes
  | .timeout _ => []

/-- One of them; `none` where the connection is closed or `svc_recv` does not return. -/
def arrive (x : Master) : Arrival → Option Master
  | .chunk bytes env =>
    match svcRecv env { x with st := { x.st with buf := x.st.buf ++ bytes } } with
    | some (.addEpollin, x') => some x'
    | _ => none
  | .timeout expired =>
    if x.st.syncing = false ∧ x.st.file ∧ expired then
      some ⟨{ x.st with file := false }, x.events ++ [.closed]⟩
    else some x

/-- `svc_initconn` -/
def Master.init : Master := ⟨⟨[], false, 0, 0, false⟩, []⟩

theorem masterRound_of_none {s : MasterSt} {e : MasterEnv} (hp : parseMsg s.buf = none) :
    masterRound s e = (.wait, s, []) := by
  unfold masterRound
  rw [hp, Option.elim_none]

theorem masterRound_of_some {s : MasterSt} {e : MasterEnv} {h : PossHead}
    (hp : parseMsg s.buf = some h) : masterRound s e = roundHandle s e h := by
  unfold masterRound
  rw [hp, Option.elim_some]

/-! ## 2. What is asked -/

/-- The frames in the order of the stream, and whether a report file is open afterwards. The pieces
    of a body are appended one after the other, with no file opened or closed between them. -/
inductive Served : List PossFrame → List Report → Bool → Prop where
  | nil : Served [] [] false
  | submit {fs : List PossFrame} {ev : List Report} {isOpen : Bool} {f : PossFrame}
      {pieces : List (List UInt8)} (h : Served fs ev isOpen) (hf : f.cmdid = REQ_SUBMIT)
      (hp : pieces.flatten = f.body) :
      Served (fs ++ [f]) (ev ++ (if isOpen then [] else [.opened]) ++ pieces.map .wrote) true
  | closed {fs : List PossFrame} {ev : List Report} (h : Served fs ev true) :
      Served fs (ev ++ [.closed]) false
  | other {fs : List PossFrame} {ev : List Report} {isOpen : Bool} {f : PossFrame}
      (h : Served fs ev isOpen) (hf : f.cmdid ≠ REQ_SUBMIT) :
      Served (fs ++ [f]) (ev ++ [.handled f.cmdid f.body]) isOpen

def appended (ev : List Report) : List UInt8 :=
  ev.flatMap fun r => match r with
    | .wrote bytes => bytes
    | _ => []

def handledOf (ev : List Report) : List (UInt32 × List UInt8) :=
  ev.filterMap fun r => match r with
    | .handled cmdid body => some (cmdid, body)
    | _ => none

def bodiesOf (fs : List PossFrame) : List UInt8 :=
  fs.flatMap fun f => if f.cmdid = REQ_SUBMIT then f.body else []

def othersOf (fs : List PossFrame) : List (UInt32 × List UInt8) :=
  fs.filterMap fun f => if f.cmdid = REQ_SUBMIT then none else some (f.cmdid, f.body)

theorem appended_wrote (pieces : List (List UInt8)) :
    appended (pieces.map .wrote) = pieces.flatten := by
  simp [appended, flatMap_map, flatMap_id']

theorem handledOf_wrote (pieces : List (List UInt8)) : handledOf (pieces.map .wrote) = [] := by
  simp [handledOf]

theorem Served.appended {fs : List PossFrame} {ev : List Report} {isOpen : Bool}
    (h : Served fs ev isOpen) : appended ev = bodiesOf fs ∧ handledOf ev = othersOf fs := by
  induction h with
  | nil => exact ⟨rfl, rfl⟩
  | @submit fs ev isOpen f pieces h hf hp ih =>
    have happ := appended_wrote pieces
    have hhan := handledOf_wrote pieces
    obtain ⟨ih1, ih2⟩ := ih
    cases isOpen <;>
      simp_all [Poss.appended, handledOf, bodiesOf, othersOf]
  | closed h ih =>
    obtain ⟨ih1, ih2⟩ := ih
    simp_all [Poss.appended, handledOf]
  | other h hf ih =>
    obtain ⟨ih1, ih2⟩ := ih
    simp_all [Poss.appended, handledOf, bodiesOf, othersOf]

/-! ## 3. Heads in the buffer -/

/-- A frame of the kinds that an agent sends. -/
def ReportFrame (f : PossFrame) : Prop :=
  (f.cmdid = REQ_SUBMIT ∨ f.cmdid = REQ_HEARTBEAT ∨ f.cmdid = RSP_PFS_CMD) ∧
    HEADSIZE + f.body.length < 2 ^ 31

instance (f : PossFrame) : Decidable (ReportFrame f) := inferInstanceAs (Decidable (_ ∧ _))

section Heads

variable {f : PossFrame} {buf rest w : List UInt8}

/-- The head that `parse_msg` finds. -/
def headOf (f : PossFrame) : PossHead := ⟨UInt32.ofNat (HEADSIZE + f.body.length), f.cmdid, f.seq⟩

theorem headOf_totallen (hf : ReportFrame f) :
    (headOf f).totallen.toNat = f.encode.length := by
  rw [encode_length, headOf, UInt32.toNat_ofNat']
  have := hf.2
  omega

theorem headOf_bodylen (hf : ReportFrame f) : (headOf f).bodylen = f.body.length := by
  have htot := headOf_totallen hf
  rw [encode_length] at htot
  rw [bodylen_eq (by omega), htot]
  omega

theorem drop_head (f : PossFrame) (w : List UInt8) :
    (f.encode ++ w).drop HEADSIZE = f.body ++ w := by
  have hhead : f.head.length = HEADSIZE := rfl
  rw [PossFrame.encode, append_assoc, ← hhead, drop_left]

theorem split_of_le {a : List UInt8} (h : buf ++ rest = a ++ w) (hle : a.length ≤ buf.length) :
    ∃ tail, a ++ tail = buf ∧ tail ++ rest = w := by
  obtain ⟨tail, rfl⟩ : a <+: buf := prefix_of_prefix_length_le ⟨_, h.symm⟩ ⟨_, rfl⟩ hle
  rw [append_assoc] at h
  exact ⟨tail, rfl, append_cancel_left h⟩

theorem ntohl_take {b b' : List UInt8} (h : b.take 4 = b'.take 4) : ntohl b = ntohl b' := by
  rw [ntohl, ntohl, h]

theorem parseMsg_encode (hf : ReportFrame f) (h12 : HEADSIZE ≤ buf.length)
    (hlt : buf.length < 2 ^ 31) (h : buf ++ rest = f.encode ++ w) :
    parseMsg buf = some (headOf f) := by
  have hsize : HEADSIZE = 12 := rfl
  have hint : toInt32 buf.length = buf.length :=
    toInt32_of_lt (Int.natCast_nonneg _) (by exact_mod_cast hlt)
  -- the three words of the head are all in `buf`
  have hword (k : Nat) (hk : k + 4 ≤ HEADSIZE) :
      ntohl (buf.drop k) = ntohl ((f.encode ++ w).drop k) := by
    apply ntohl_take
    rw [← h, drop_append_of_le_length (by omega), take_append_of_le_length]
    rw [length_drop]
    omega
  have hlen : toInt32 f.body.length = f.body.length :=
    toInt32_of_lt (Int.natCast_nonneg _) (by have := hf.2; omega)
  have hmod : ((HEADSIZE + (f.body.length : Int)) % 2 ^ 32).toNat = HEADSIZE + f.body.length := by
    have := hf.2
    omega
  have hwire : f.encode ++ w = be32 (UInt32.ofNat (HEADSIZE + f.body.length)) ++
      (be32 f.cmdid ++ (be32 f.seq ++ (f.body ++ w))) := by
    rw [PossFrame.encode, PossFrame.head, createPossHead, hlen, hmod]
    simp only [append_assoc]
  have h0 := hword 0 (by omega)
  have h4 := hword 4 (by omega)
  have h8 := hword 8 (by omega)
  rw [drop_zero, drop_zero, hwire, ntohl_be32] at h0
  have hfour (u : UInt32) (l : List UInt8) : (be32 u ++ l).drop 4 = l := drop_left' rfl
  rw [hwire, hfour, ntohl_be32] at h4
  have height (l : List UInt8) : l.drop 8 = (l.drop 4).drop 4 := by
    rw [drop_drop]
  rw [hwire, height (be32 _ ++ _), hfour, hfour, ntohl_be32] at h8
  rw [parseMsg, hint, if_neg (by omega), h0, h4, h8]
  rfl

theorem parseMsg_short (hlt : buf.length < 2 ^ 31) (h : buf.length < HEADSIZE) :
    parseMsg buf = none := by
  have hint : toInt32 buf.length = buf.length :=
    toInt32_of_lt (Int.natCast_nonneg _) (by exact_mod_cast hlt)
  rw [parseMsg, hint, if_pos (by omega)]

end Heads

/-! ## 4. What holds between arrivals -/

/-- Every file can be opened, and `write` takes all it is given. -/
def Accepts (e : MasterEnv) : Prop := e.openOk = true ∧ ∃ k, e.write = some k ∧ 2 ^ 31 ≤ k

/-- Between two frames: `done` is served, and the bytes here and still to come are `todo`. -/
structure Idle (fs : List PossFrame) (rest : List UInt8) (x : Master) : Prop where
  syncing : x.st.syncing = false
  frames : ∃ done todo, fs = done ++ todo ∧ x.st.buf ++ rest = wireOf todo ∧
    Served done x.events x.st.file

/-- Within the body of `f`: `pieces` of it are written, and `left` is still to be. -/
structure InBody (fs : List PossFrame) (rest : List UInt8) (x : Master) : Prop where
  syncing : x.st.syncing = true
  file : x.st.file = true
  frames : ∃ done f todo ev isOpen pieces left, fs = done ++ f :: todo ∧ f.cmdid = REQ_SUBMIT ∧
    f.body = List.flatten pieces ++ left ∧ x.st.datalen = f.body.length ∧
    x.st.recvlen = (List.flatten pieces).length ∧ x.st.buf ++ rest = left ++ wireOf todo ∧
    Served done ev isOpen ∧
    x.events = ev ++ (if isOpen then [] else [.opened]) ++ pieces.map .wrote

/-- Between two bodies, or inside one. -/
def StoreInv (fs : List PossFrame) (rest : List UInt8) (x : Master) : Prop :=
  Idle fs rest x ∨ InBody fs rest x

def Drained (x : Master) : Prop :=
  if x.st.syncing then x.st.buf = []
  else ∀ f w, ReportFrame f → x.st.buf ≠ f.encode ++ w

theorem drained_of_nil {x : Master} (hsync : x.st.syncing = true) (hnil : x.st.buf = []) :
    Drained x := by
  rw [Drained, if_pos hsync]
  exact hnil

/-- The connection after a round. -/
def Master.after (x : Master) (r : RoundEnd × MasterSt × List Report) : Master :=
  ⟨r.2.1, x.events ++ r.2.2⟩

/-- What a round leaves: a whole frame is done and taken from the buffer, or the loop waits. -/
def RoundOk (fs : List PossFrame) (rest : List UInt8) (x : Master)
    (r : RoundEnd × MasterSt × List Report) : Prop :=
  r.1 = .again ∧ Idle fs rest (x.after r) ∧ r.2.1.buf.length < x.st.buf.length ∨
    r.1 = .wait ∧ StoreInv fs rest (x.after r) ∧ Drained (x.after r)

theorem wireOf_cons (f : PossFrame) (fs : List PossFrame) :
    wireOf (f :: fs) = f.encode ++ wireOf fs := by
  simp [wireOf]

section Steps

variable {fs : List PossFrame} {rest : List UInt8} {x : Master} {e : MasterEnv}

/-- `sub_recv` within a body: it is finished, or all that is here is written. -/
theorem InBody.subRecv (h : InBody fs rest x) (hfs : ∀ f ∈ fs, ReportFrame f) (he : Accepts e)
    (hlt : x.st.buf.length < 2 ^ 31) :
    ((subRecv x.st e).2.1 = .addEpollin ∧
        InBody fs rest ⟨(subRecv x.st e).2.2, x.events ++ subWrote x.st e⟩ ∧
        (subRecv x.st e).2.2.buf = []) ∨
      ((subRecv x.st e).2.1 = .addEpollout ∧
        Idle fs rest ⟨(subRecv x.st e).2.2, x.events ++ subWrote x.st e⟩) := by
  obtain ⟨hsync, hfile, done, f, todo, ev, isOpen, pieces, left, hfs', hcmd, hbody, hdata, hrecv,
    hbytes, hserved, hev⟩ := h
  obtain ⟨-, k, hk, hbig⟩ := he
  have hf := hfs f (by rw [hfs']; simp)
  have hbl := congrArg List.length hbody
  rw [length_append] at hbl
  have hsmall : f.body.length < 2 ^ 31 := by
    have := hf.2
    omega
  unfold Pfs.subRecv subWrote
  by_cases hnil : x.st.buf = []
  · -- no byte is here: the body may even be empty
    rw [if_pos (.inr hnil), if_pos (.inr hnil)]
    refine .inl ⟨rfl, ?_, hnil⟩
    rw [append_nil]
    exact ⟨hsync, hfile, done, f, todo, ev, isOpen, pieces, left, hfs', hcmd, hbody, hdata, hrecv,
      hbytes, hserved, hev⟩
  have hskip : ¬ (x.st.syncing = false ∨ x.st.buf = []) := by
    rw [hsync]
    simp [hnil]
  have hleft : toSize (toInt32 (x.st.datalen - x.st.recvlen)) = left.length := by
    rw [hdata, hrecv, toInt32_of_lt (by omega) (by omega), toSize_of_nonneg (by omega) (by omega)]
    omega
  have hn : toInt32 (min k (min x.st.buf.length left.length) : Nat) =
      (min x.st.buf.length left.length : Nat) := by
    rw [Nat.min_eq_right (by omega), toInt32_of_lt (Int.natCast_nonneg _) (by omega)]
  have hsum : toInt32 (x.st.recvlen + (min x.st.buf.length left.length : Nat)) =
      x.st.recvlen + (min x.st.buf.length left.length : Nat) :=
    toInt32_of_lt (by omega) (by omega)
  rw [if_neg hskip, if_neg hskip]
  simp only [hleft, hk, hn, hsum, if_neg (Int.not_lt.mpr (Int.natCast_nonneg _)),
    Int.toNat_natCast, hfile, true_and, Bool.true_and]
  by_cases hall : left.length ≤ x.st.buf.length
  · -- the rest of the body is here
    obtain ⟨tail, htail, hrest⟩ := split_of_le hbytes hall
    have hpieces : (pieces ++ [left]).flatten = f.body := by
      rw [hbody]
      simp
    have hnow := Served.submit hserved hcmd hpieces
    rw [Nat.min_eq_right hall, if_neg (by omega)]
    refine .inr ⟨rfl, rfl, done ++ [f], todo, by rw [hfs']; simp, ?_, ?_⟩
    · rw [← htail, drop_left]
      exact hrest
    · rw [← htail, take_left, hev]
      have hfin : ¬ x.st.recvlen + (left.length : Int) < x.st.datalen := by omega
      cases hexp : e.expired
      · simpa [hfin] using hnow
      · simpa [hfin] using hnow.closed
  · -- all that is here belongs to the body
    obtain ⟨left', hleft', hrest⟩ := split_of_le hbytes.symm (by omega)
    have hlt' : x.st.recvlen + (x.st.buf.length : Int) < x.st.datalen := by omega
    rw [Nat.min_eq_left (by omega), if_pos hlt']
    refine .inl ⟨rfl, ⟨hsync, rfl, done, f, todo, ev, isOpen, pieces ++ [x.st.buf], left', hfs',
      hcmd, ?_, hdata, ?_, ?_, hserved, ?_⟩, drop_length⟩
    · rw [hbody, ← hleft']
      simp
    · simp [hrecv]
    · simpa using hrest.symm
    · simp [hev, hlt']

section NextFrame

variable {done todo : List PossFrame} {f : PossFrame}

theorem inBody_submitted (hfs' : fs = done ++ f :: todo) (hf : ReportFrame f)
    (hcmd : f.cmdid = REQ_SUBMIT) (h12 : HEADSIZE ≤ x.st.buf.length)
    (hbytes : x.st.buf ++ rest = f.encode ++ wireOf todo)
    (hserved : Served done x.events x.st.file) :
    InBody fs rest
      ⟨submitted x.st (headOf f), x.events ++ if x.st.file then [] else [.opened]⟩ := by
  have hlen : (submitted x.st (headOf f)).datalen = (f.body.length : Int) := by
    have hsmall : (f.body.length : Int) < 2 ^ 31 := by
      have := hf.2
      omega
    simp only [submitted, headOf_bodylen hf]
    rw [toInt32_of_lt (Int.natCast_nonneg _) hsmall]
  refine ⟨rfl, rfl, done, f, todo, x.events, x.st.file, [], f.body, hfs', hcmd, by simp, hlen,
    by simp [submitted], ?_, hserved, ?_⟩
  · have hdrop := congrArg (List.drop HEADSIZE) hbytes
    rw [drop_append_of_le_length h12, drop_head] at hdrop
    exact hdrop
  · rw [map_nil, append_nil]

theorem Idle.other_round (hsync : x.st.syncing = false) (hfs' : fs = done ++ f :: todo)
    (hf : ReportFrame f) (hcmd : f.cmdid ≠ REQ_SUBMIT) (h12 : HEADSIZE ≤ x.st.buf.length)
    (hlt : x.st.buf.length < 2 ^ 31) (hbytes : x.st.buf ++ rest = f.encode ++ wireOf todo)
    (hserved : Served done x.events x.st.file) :
    RoundOk fs rest x (roundHandle x.st e (headOf f)) := by
  have hkind : (headOf f).cmdid = REQ_HEARTBEAT ∨ (headOf f).cmdid = RSP_PFS_CMD ∨
      (headOf f).cmdid = REQ_AUTH := by
    rcases hf.1 with h | h | h
    · exact absurd h hcmd
    · exact .inl h
    · exact .inr (.inl h)
  rw [roundHandle, if_pos hkind]
  by_cases hlen : x.st.buf.length < (headOf f).totallen.toNat
  · rw [if_pos hlen, RoundOk, Master.after, append_nil]
    refine .inr ⟨rfl, .inl ⟨hsync, done, f :: todo, hfs', ?_, hserved⟩, ?_⟩
    · rw [wireOf_cons]
      exact hbytes
    rw [Drained, if_neg (by rw [hsync]; exact Bool.false_ne_true)]
    intro f' w hf' hbuf
    -- the head that is here is the head of `f`
    have hhead : headOf f' = headOf f := by
      have h' := parseMsg_encode hf' h12 hlt (show x.st.buf ++ [] = f'.encode ++ w by
        rw [append_nil, hbuf])
      rw [parseMsg_encode hf h12 hlt hbytes] at h'
      exact (Option.some.inj h').symm
    rw [← hhead, headOf_totallen hf', hbuf, length_append] at hlen
    omega
  · rw [if_neg hlen]
    rw [headOf_totallen hf] at hlen ⊢
    obtain ⟨tail, htail, hrest⟩ := split_of_le hbytes (Nat.not_lt.mp hlen)
    have hsize := encode_length f
    have hpos : 0 < HEADSIZE := by decide
    refine .inl ⟨rfl, ⟨hsync, done ++ [f], todo, by rw [hfs']; simp, ?_, ?_⟩, ?_⟩
    · rw [← htail]
      simpa [Master.after] using hrest
    · have hbody : (x.st.buf.drop HEADSIZE).take (headOf f).bodylen = f.body := by
        rw [headOf_bodylen hf, ← htail, drop_head, take_left]
      show Served (done ++ [f]) (x.events ++ [.handled (headOf f).cmdid _]) x.st.file
      rw [hbody]
      exact hserved.other hcmd
    · show (x.st.buf.drop f.encode.length).length < x.st.buf.length
      rw [length_drop]
      omega

end NextFrame

theorem Idle.round (h : Idle fs rest x) (hfs : ∀ f ∈ fs, ReportFrame f) (he : Accepts e)
    (hlt : x.st.buf.length < 2 ^ 31) : RoundOk fs rest x (masterRound x.st e) := by
  have hsize : HEADSIZE = 12 := rfl
  by_cases hshort : x.st.buf.length < HEADSIZE
  · rw [masterRound_of_none (parseMsg_short hlt hshort), RoundOk, Master.after, append_nil]
    refine .inr ⟨rfl, .inl h, ?_⟩
    rw [Drained, if_neg (by rw [h.syncing]; exact Bool.false_ne_true)]
    intro f w _ hbuf
    rw [hbuf, length_append, encode_length] at hshort
    omega
  obtain ⟨hsync, done, todo, hfs', hbytes, hserved⟩ := h
  cases todo with
  | nil =>
    have hnil := congrArg List.length hbytes
    rw [length_append, show wireOf [] = [] from rfl, length_nil] at hnil
    omega
  | cons f todo =>
    have hf := hfs f (by rw [hfs']; simp)
    rw [wireOf_cons] at hbytes
    rw [masterRound_of_some (parseMsg_encode hf (by omega) hlt hbytes)]
    by_cases hcmd : f.cmdid = REQ_SUBMIT
    · have hin := inBody_submitted hfs' hf hcmd (Nat.not_lt.mp hshort) hbytes hserved
      have hstep := hin.subRecv hfs he (by
        show (x.st.buf.drop HEADSIZE).length < 2 ^ 31
        rw [length_drop]
        omega)
      have hle := subRecv_buf (submitted x.st (headOf f)) e
      have hdrop : (submitted x.st (headOf f)).buf.length = x.st.buf.length - HEADSIZE :=
        length_drop
      have hnot : ¬ ((headOf f).cmdid = REQ_HEARTBEAT ∨ (headOf f).cmdid = RSP_PFS_CMD ∨
          (headOf f).cmdid = REQ_AUTH) := by
        show ¬ (f.cmdid = _ ∨ f.cmdid = _ ∨ f.cmdid = _)
        rw [hcmd]
        decide
      rw [roundHandle, if_neg hnot, if_pos (show (headOf f).cmdid = REQ_SUBMIT from hcmd),
        if_neg (by rw [he.1]; simp)]
      simp only [append_assoc] at hstep
      rcases hstep with ⟨hend, hin', hnil⟩ | ⟨hend, hidle⟩
      · exact .inr ⟨by simp only [hend]; rfl, .inr hin', drained_of_nil hin'.syncing hnil⟩
      · exact .inl ⟨by simp only [hend]; rfl, hidle, by simp only; omega⟩
    · exact Idle.other_round hsync hfs' hf hcmd (Nat.not_lt.mp hshort) hlt hbytes hserved

theorem recvLoop_spec (hfs : ∀ f ∈ fs, ReportFrame f) {env : Nat → MasterEnv}
    (henv : ∀ n, Accepts (env n)) (fuel n : Nat) (h : Idle fs rest x)
    (hlt : x.st.buf.length < 2 ^ 31) (hfuel : x.st.buf.length < fuel) :
    ∃ x', recvLoop env fuel n x = some (.addEpollin, x') ∧ StoreInv fs rest x' ∧ Drained x' := by
  induction fuel generalizing n x with
  | zero => omega
  | succ fuel ih =>
    have hround := h.round hfs (henv n) hlt
    -- the round as a variable: nothing below looks into it
    obtain ⟨r, hr⟩ : ∃ r, masterRound x.st (env n) = r := ⟨_, rfl⟩
    rw [hr] at hround
    simp only [recvLoop, hr]
    rcases hround with ⟨hend, hidle, hshort⟩ | ⟨hend, hinv, hdrained⟩
    · rw [if_pos hend]
      have hfuel' := Nat.lt_of_lt_of_le hshort (Nat.le_of_lt_succ hfuel)
      exact ih (n + 1) hidle (Nat.lt_trans hshort hlt) hfuel'
    · rw [if_neg (by rw [hend]; decide), if_pos hend]
      exact ⟨_, rfl, hinv, hdrained⟩

theorem svcRecv_spec (hfs : ∀ f ∈ fs, ReportFrame f) {env : Nat → MasterEnv}
    (henv : ∀ n, Accepts (env n)) (h : StoreInv fs rest x) (hlt : x.st.buf.length < 2 ^ 31) :
    ∃ x', svcRecv env x = some (.addEpollin, x') ∧ StoreInv fs rest x' ∧ Drained x' := by
  rcases h with hidle | hin
  · have hfuel : x.st.buf.length < x.st.buf.length + 1 := Nat.lt_add_one _
    rw [svcRecv, if_pos hidle.syncing]
    exact recvLoop_spec hfs henv _ _ hidle hlt hfuel
  rw [svcRecv, if_neg (by rw [hin.syncing]; simp)]
  rcases hin.subRecv hfs (henv 0) hlt with ⟨hend, hin', hnil⟩ | ⟨hend, hidle⟩
  · refine ⟨_, ?_, .inr hin', drained_of_nil hin'.syncing hnil⟩
    simp only [hend, reduceCtorEq, if_false]
  · have hle := Nat.lt_of_le_of_lt (subRecv_buf x.st (env 0)) hlt
    have hfuel := Nat.lt_add_one (subRecv x.st (env 0)).2.2.buf.length
    simp only [hend, if_true]
    exact recvLoop_spec hfs henv _ _ hidle hle hfuel

theorem StoreInv.chunk {bytes : List UInt8} (h : StoreInv fs (bytes ++ rest) x) :
    StoreInv fs rest { x with st := { x.st with buf := x.st.buf ++ bytes } } := by
  rcases h with ⟨hsync, done, todo, hfs', hbytes, hserved⟩ |
    ⟨hsync, hfile, done, f, todo, ev, isOpen, pieces, left, hfs', hcmd, hbody, hdata, hrecv, hbytes,
      hserved⟩
  · refine .inl ⟨hsync, done, todo, hfs', ?_, hserved⟩
    rw [append_assoc]
    exact hbytes
  refine .inr ⟨hsync, hfile, done, f, todo, ev, isOpen, pieces, left, hfs', hcmd, hbody, hdata,
    hrecv, ?_, hserved⟩
  rw [append_assoc]
  exact hbytes

end Steps

/-! ## 5. Whole streams -/

/-- Whatever is to be done for this arrival is accepted. -/
def Arrival.Accepted : Arrival → Prop
  | .chunk _ env => ∀ n, Accepts (env n)
  | .timeout _ => True

/-- Fewer than 2^31 bytes are buffered when `svc_recv` is called. -/
def Fits (x : Master) (a : Arrival) : Prop := x.st.buf.length + a.bytes.length < 2 ^ 31

instance (x : Master) (a : Arrival) : Decidable (Fits x a) := inferInstanceAs (Decidable (_ < _))

section Streams

variable {fs : List PossFrame} {x : Master}

theorem arrive_spec (hfs : ∀ f ∈ fs, ReportFrame f) {rest : List UInt8} {a : Arrival}
    (h : StoreInv fs (a.bytes ++ rest) x) (hd : Drained x) (ha : a.Accepted) (hfit : Fits x a) :
    ∃ x', arrive x a = some x' ∧ StoreInv fs rest x' ∧ Drained x' := by
  cases a with
  | chunk bytes env =>
    have hlt : (x.st.buf ++ bytes).length < 2 ^ 31 := by
      rw [length_append]
      exact hfit
    rw [Arrival.bytes] at h
    obtain ⟨x', hx', hinv, hd'⟩ := svcRecv_spec hfs ha h.chunk hlt
    refine ⟨x', ?_, hinv, hd'⟩
    rw [arrive, hx']
  | timeout expired =>
    rw [Arrival.bytes, nil_append] at h
    by_cases hclose : x.st.syncing = false ∧ x.st.file ∧ expired
    · -- only between two frames
      rcases h with ⟨hsync, done, todo, hfs', hbytes, hserved⟩ | hin
      · rw [hclose.2.1] at hserved
        refine ⟨⟨{ x.st with file := false }, x.events ++ [.closed]⟩, ?_,
          .inl ⟨hsync, done, todo, hfs', hbytes, hserved.closed⟩, hd⟩
        rw [arrive, if_pos hclose]
      · rw [hin.syncing] at hclose
        exact absurd hclose.1 (by simp)
    · exact ⟨x, by rw [arrive, if_neg hclose], h, hd⟩

/-- Any arrivals, with `rest` still to come. -/
theorem arrivals_spec (hfs : ∀ f ∈ fs, ReportFrame f) {rest : List UInt8} (as : List Arrival)
    (h : StoreInv fs (as.flatMap Arrival.bytes ++ rest) x) (hd : Drained x)
    (hacc : ∀ a ∈ as, a.Accepted) (hfit : Meets arrive Fits x as) :
    ∃ x', exec arrive x as = some x' ∧ StoreInv fs rest x' ∧ Drained x' := by
  induction as generalizing x with
  | nil => exact ⟨x, rfl, h, hd⟩
  | cons a as ih =>
    rw [flatMap_cons, append_assoc] at h
    obtain ⟨x₁, hx₁, hinv, hd₁⟩ := arrive_spec hfs h hd (hacc a mem_cons_self) hfit.1
    obtain ⟨x', hx', hend⟩ :=
      ih hinv hd₁ (fun b hb => hacc b (mem_cons_of_mem _ hb)) (hfit.2 x₁ hx₁)
    exact ⟨x', by rw [exec, hx₁, Option.bind_some, hx'], hend⟩

theorem drained_init : Drained Master.init := by
  rw [Drained, if_neg (by decide)]
  intro f w _ h
  have hlen := congrArg length h
  rw [length_append, encode_length, HEADSIZE, Master.init, length_nil] at hlen
  omega

theorem StoreInv.served (hfs : ∀ f ∈ fs, ReportFrame f) (h : StoreInv fs [] x) (hd : Drained x) :
    ∃ isOpen, Served fs x.events isOpen := by
  rcases h with ⟨hsync, done, todo, hfs', hbytes, hserved⟩ |
    ⟨hsync, hfile, done, f, todo, ev, isOpen, pieces, left, hfs', hcmd, hbody, hdata, hrecv, hbytes,
      hserved, hev⟩
  · rw [append_nil] at hbytes
    cases todo with
    | nil =>
      rw [append_nil] at hfs'
      exact ⟨_, hfs' ▸ hserved⟩
    | cons f todo =>
      rw [Drained, if_neg (by rw [hsync]; exact Bool.false_ne_true)] at hd
      rw [wireOf_cons] at hbytes
      exact absurd hbytes (hd f _ (hfs f (by rw [hfs']; simp)))
  · rw [Drained, if_pos hsync] at hd
    rw [hd, append_nil] at hbytes
    obtain ⟨hleft, htodo⟩ := append_eq_nil_iff.mp hbytes.symm
    cases todo with
    | nil =>
      rw [hleft, append_nil] at hbody
      exact ⟨true, hfs' ▸ hev ▸ hserved.submit hcmd hbody.symm⟩
    | cons g todo =>
      have hlen := congrArg List.length htodo
      rw [wireOf_cons, length_append, encode_length, length_nil] at hlen
      have hsize : HEADSIZE = 12 := rfl
      omega

end Streams

/-- **Reports are stored byte for byte**, for all frames and all ways to cut them into chunks, with
    or without timeouts between them. -/
theorem reports_stored (fs : List PossFrame) (as : List Arrival)
    (hfs : ∀ f ∈ fs, ReportFrame f) (hbytes : as.flatMap Arrival.bytes = wireOf fs)
    (hacc : ∀ a ∈ as, a.Accepted) (hfit : Meets arrive Fits Master.init as) :
    ∃ x isOpen, exec arrive Master.init as = some x ∧ Served fs x.events isOpen ∧
      appended x.events = bodiesOf fs ∧ handledOf x.events = othersOf fs := by
  have hstart : StoreInv fs (as.flatMap Arrival.bytes ++ []) Master.init :=
    .inl ⟨rfl, [], fs, rfl, by rw [append_nil, hbytes]; rfl, .nil⟩
  obtain ⟨x, hx, hinv, hd⟩ := arrivals_spec hfs as hstart drained_init hacc hfit
  obtain ⟨isOpen, hserved⟩ := hinv.served hfs hd
  exact ⟨x, isOpen, hx, hserved, hserved.appended⟩

/-- Opens succeed and writes take everything. -/
def acceptEnv (expired : Bool) : MasterEnv := ⟨true, true, some (2 ^ 31), expired⟩

theorem accepts_acceptEnv (expired : Bool) : Accepts (acceptEnv expired) :=
  ⟨rfl, 2 ^ 31, rfl, Nat.le_refl _⟩

/-- A report, a heartbeat, an empty report and another report. -/
def someFrames : List PossFrame :=
  [⟨REQ_SUBMIT, 1, [65, 66, 67], []⟩, ⟨REQ_HEARTBEAT, 2, [7], []⟩, ⟨REQ_SUBMIT, 3, [], []⟩,
    ⟨REQ_SUBMIT, 4, [68], []⟩]

/-- The first report is cut after its second byte, and the stream once more after the head of the
    empty one; a timeout comes within the body. -/
def someArrivals : List Arrival :=
  [.chunk ((wireOf someFrames).take 14) fun _ => acceptEnv true, .timeout true,
    .chunk (((wireOf someFrames).drop 14).take 26) fun _ => acceptEnv true,
    .chunk ((wireOf someFrames).drop 40) fun _ => acceptEnv false]

theorem reports_stored_cut :
    ∃ x isOpen, exec arrive Master.init someArrivals = some x ∧
      Served someFrames x.events isOpen ∧ appended x.events = [65, 66, 67, 68] ∧
      handledOf x.events = [(REQ_HEARTBEAT, [7])] := by
  refine reports_stored someFrames someArrivals (by decide) (by decide) ?_ (by decide +kernel)
  intro a ha
  simp only [someArrivals, mem_cons, not_mem_nil, or_false] at ha
  rcases ha with rfl | rfl | rfl | rfl
  · exact fun _ => accepts_acceptEnv true
  · trivial
  · exact fun _ => accepts_acceptEnv true
  · exact fun _ => accepts_acceptEnv false

/-! ## 6. More than an `int` can count -/

theorem parseMsg_big {buf : List UInt8} (h : 2 ^ 31 ≤ buf.length) (h' : buf.length < 2 ^ 32) :
    parseMsg buf = none := by
  have hneg : toInt32 buf.length = (buf.length : Int) % 2 ^ 32 - 2 ^ 32 := toInt32_neg (by omega)
  rw [parseMsg, hneg, if_pos]
  omega

theorem arrive_of_none {x : Master} {w bytes : List UInt8} {env : Nat → MasterEnv}
    (hsync : x.st.syncing = false) (hw : x.st.buf ++ bytes = w) (hp : parseMsg w = none) :
    arrive x (.chunk bytes env) = some ⟨{ x.st with buf := w }, x.events⟩ := by
  have hround (e : MasterEnv) :
      masterRound { x.st with buf := w } e = (.wait, { x.st with buf := w }, []) :=
    masterRound_of_none hp
  have hrecv : svcRecv env ⟨{ x.st with buf := w }, x.events⟩ =
      some (.addEpollin, ⟨{ x.st with buf := w }, x.events⟩) := by
    rw [svcRecv, if_pos hsync, recvLoop]
    simp only [hround, reduceCtorEq, if_false, if_true, append_nil]
  rw [arrive, hw, hrecv]

/-- An answer of `n` bytes, and a report. -/
def longFrames (n : Nat) : List PossFrame :=
  [⟨RSP_PFS_CMD, 1, List.replicate n 0, []⟩, ⟨REQ_SUBMIT, 2, [65], []⟩]

def longArrival (n : Nat) : Arrival := .chunk (wireOf (longFrames n)) fun _ => acceptEnv false

/-- What is left of it, once 2^31 bytes or more are there. -/
def longStalled (n : Nat) : Master := ⟨⟨wireOf (longFrames n), false, 0, 0, false⟩, []⟩

theorem wireOf_longFrames_length (n : Nat) : (wireOf (longFrames n)).length = n + 25 := by
  rw [longFrames, wireOf_cons, wireOf_cons, length_append, length_append, encode_length,
    encode_length, length_replicate]
  show 12 + n + (12 + 1 + 0) = n + 25
  omega

theorem reportFrame_long {n : Nat} (h : 12 + n < 2 ^ 31) : ∀ f ∈ longFrames n, ReportFrame f := by
  intro f hf
  simp only [longFrames, mem_cons, not_mem_nil, or_false] at hf
  rcases hf with rfl | rfl
  · refine ⟨.inr (.inr rfl), ?_⟩
    rw [length_replicate]
    exact h
  · decide

theorem arrive_long {n : Nat} (h : 2 ^ 31 ≤ n + 25) (h' : n + 25 < 2 ^ 32) :
    arrive Master.init (longArrival n) = some (longStalled n) := by
  have hlen := wireOf_longFrames_length n
  exact arrive_of_none rfl (nil_append _) (parseMsg_big (by omega) (by omega))

/-- **Frames that are read in one go are left there for good** when they are 2^31 bytes or more: the
    number of bytes is an `int` in `parse_msg`, and no head is found in a negative number. -/
theorem big_buffer_stalls :
    (∀ f ∈ longFrames (2 ^ 31 - 13), ReportFrame f) ∧ (longArrival (2 ^ 31 - 13)).Accepted ∧
      [longArrival (2 ^ 31 - 13)].flatMap Arrival.bytes = wireOf (longFrames (2 ^ 31 - 13)) ∧
      bodiesOf (longFrames (2 ^ 31 - 13)) = [65] ∧
      ∃ x, exec arrive Master.init [longArrival (2 ^ 31 - 13)] = some x ∧
        appended x.events = [] ∧ handledOf x.events = [] := by
  have hbytes (n : Nat) : [longArrival n].flatMap Arrival.bytes = wireOf (longFrames n) := by
    simp [longArrival, Arrival.bytes]
  have hbody (n : Nat) : bodiesOf (longFrames n) = [65] := by
    simp [bodiesOf, longFrames, show RSP_PFS_CMD ≠ REQ_SUBMIT by decide]
  refine ⟨reportFrame_long (by decide), fun _ => accepts_acceptEnv false, hbytes _, hbody _,
    longStalled (2 ^ 31 - 13), ?_, rfl, rfl⟩
  rw [exec, arrive_long (by decide) (by decide), Option.bind_some, exec]

end Pfs.Poss
