/-
  The replies that the client library reads (lib/pfs_api.c: `check_req`,
  `connect_storage`, `upload_file_inter`, `check_rsp_from_storage`; network/U/pfs_up_task.c:
  `create_push_rsp`, `create_push_rsp_err`).

  One buffer, `result`, takes the nameserver's reply and then the storage's. It is cleared before
  the first only, and a body is copied without a zero behind it.

  Main results: `errmsg_of_err`, `reply_decoded`.
-/
import Pfs.StoredName

namespace Pfs

open Lib List

namespace Client

/-! ## 1. `check_req` -/

/-- `sizeof(result)` -/
def RESULT_SIZE : Nat := 2048

inductive CheckRet where
  | recv
  | close
  | switch
  | dataOver
  deriving DecidableEq, Repr

/-- `check_req`; `data` is what the receive buffer holds. -/
def checkReq (stat : ClientStat) (data result : List UInt8) :
    Except Fault (CheckRet × List UInt8) :=
  if data = [] then .ok (.recv, result)
  else
    match parseSigMsg zeroBody data (toInt32 data.length) with
    | (.ok, h, b) =>
      if RESULT_SIZE < h.bodylen then .error .overflow
      else
        .ok (if stat = .getStorage then .switch else .dataOver, copyAt result 0 (b.take h.bodylen))
    | (.errClose, _, _) => .ok (.close, result)
    | _ => .ok (.recv, result)

/-- `do_recv` and `check_req` until something is complete; `data` is what has come so far. -/
def recvLoop (stat : ClientStat) :
    List (List UInt8) → List UInt8 → List UInt8 → Except Fault (CheckRet × List UInt8)
  | [], _, result => .ok (.recv, result)
  | piece :: pieces, data, result =>
    match checkReq stat (data ++ piece) result with
    | .ok (.recv, result) => recvLoop stat pieces (data ++ piece) result
    | r => r

/-! ## 2. The exchange -/

/-- `connect_storage`: the ':' of the address is overwritten. -/
def cutAddr (result : List UInt8) : List UInt8 := result.set ((cText result).idxOf 58) 0

inductive PfsRet where
  | ok
  | conStorage
  | storageFile
  deriving DecidableEq, Repr

/-- What the caller of `operate_pfs` has. -/
structure Outcome where
  ret : PfsRet
  errmsg : List UInt8
  remotefile : Path
  group : Path
  deriving DecidableEq, Repr

/-- The end of `upload_file_inter`: the result as `errmsg`, and `check_rsp_from_storage`. -/
def finish (api : Api) (result : List UInt8) : Outcome :=
  let errmsg := field256 (cText result)
  match checkRspFromStorage errmsg with
  | none => ⟨.storageFile, errmsg, api.remotefile, api.group⟩
  | some (remotefile, group) => ⟨.ok, errmsg, remotefile, group⟩

/-- `upload_file_inter` from the replies on, each in the pieces it comes in; `none` while it waits
    for more. -/
def replies (api : Api) (nameserver storage : List (List UInt8)) : Except Fault (Option Outcome) :=
  match recvLoop .getStorage nameserver [] (List.replicate RESULT_SIZE 0) with
  | .error f => .error f
  | .ok (.switch, result) =>
    if 58 ∈ cText result then
      match recvLoop .putData storage [] (cutAddr result) with
      | .error f => .error f
      | .ok (.dataOver, result) => .ok (some (finish api result))
      | .ok _ => .ok none
    else .ok (some ⟨.conStorage, field256 (cText result), api.remotefile, api.group⟩)
  | .ok _ => .ok none

/-! ## 3. What the storage means -/

/-- A reply of the storage: a return name and the domain, or a message. -/
inductive StorageReply where
  | done (retfile domain : Path)
  | failed (errmsg : List UInt8)

/-- The fields that a reply is made of are texts, and fit theirs. -/
def StorageReply.Text : StorageReply → Prop
  | .done retfile domain => 0 ∉ retfile ∧ retfile.length < 256 ∧ 0 ∉ domain ∧ domain.length < 128
  | .failed errmsg => 0 ∉ errmsg ∧ errmsg.length ≤ RESULT_SIZE - SIG_HEADSIZE

/-- The frame of `create_push_rsp` or `create_push_rsp_err`. -/
def StorageReply.frame : StorageReply → List UInt8
  | .done retfile domain => createSigMsg CMD_PUT_FILE_RSP 0 (pushRspBody domain retfile) 256
  | .failed errmsg => createSigMsg CMD_PUT_FILE_RSP 0 errmsg errmsg.length

def oneSlash (name : Path) : Path :=
  if name.head? = some slash then slash :: name.dropWhile (· == slash) else name

/-- The client has what the storage meant. -/
def StorageReply.Decoded (r : StorageReply) (o : Outcome) : Prop :=
  match r with
  | .done retfile domain => o.ret = .ok ∧ o.remotefile = oneSlash retfile ∧ o.group = domain
  | .failed errmsg => o.ret ≠ .ok ∧ o.errmsg = errmsg

/-- Nothing of a reply of the nameserver with the body `ns` is left behind `n` bytes. -/
def Covered (ns : List UInt8) (n : Nat) : Prop :=
  ns.length ≤ n ∨ n = ns.idxOf 58 ∨ ns[n]? = some 0

/-- The condition on a reply, behind a reply of the nameserver with the body `ns`. -/
def StorageReply.Plain (ns : List UInt8) : StorageReply → Prop
  | .done retfile domain =>
    retfile.head? = some slash ∧ bar ∉ retfile ∧ retfile.length + domain.length + 4 < 256
  | .failed errmsg =>
    (Covered ns errmsg.length ∨ errmsg.length = 255) ∧ errmsg.length < 256 ∧
      ¬ (errmsg.take 3 = ascii "OK|" ∧ bar ∈ errmsg.drop 3)

/-! ## 4. Frames that come in pieces -/

section Pieces

variable {stat : ClientStat} {result : List UInt8}

/-- What `check_req` returns for a frame. -/
def doneRet (stat : ClientStat) : CheckRet := if stat = .getStorage then .switch else .dataOver

theorem length_encode_lt (m : SigMsg) : m.encode.length < 2 ^ 31 := by
  have hbody := m.body_le
  rw [m.encode_eq, length_append]
  simp only [headBytes, length_cons, length_nil]
  omega

theorem checkReq_encode (m : SigMsg) (hsize : m.body.length ≤ RESULT_SIZE) :
    checkReq stat m.encode result = .ok (doneRet stat, copyAt result 0 m.body) := by
  have hnext := sigNext_encode m []
  rw [append_nil] at hnext
  have hne : m.encode ≠ [] := by
    rw [m.encode_eq]
    exact cons_ne_nil _ _
  have hbody : (paddedBody m.body).take m.body.length = m.body := by
    rw [paddedBody_eq, take_left]
  rw [checkReq, if_neg hne, (parse_some (length_encode_lt m) hnext).1]
  simp only [SigMsg.received, hbody]
  rw [if_neg (Nat.not_lt.mpr hsize)]
  rfl

theorem checkReq_part {m : SigMsg} {data rest : List UInt8} (h : data ++ rest = m.encode)
    (hrest : rest ≠ []) : checkReq stat data result = .ok (.recv, result) := by
  have hnone : sigNext data = none := by
    cases hsome : sigNext data with
    | none => rfl
    | some r =>
      have hall := sigNext_stable rest hsome
      have hfull := sigNext_encode m []
      rw [append_nil] at hfull
      rw [h, hfull, Option.some.injEq, Prod.mk.injEq] at hall
      exact absurd (append_eq_nil_iff.mp hall.2.symm).2 hrest
  have hlen : data.length < 2 ^ 31 := by
    have := length_encode_lt m
    rw [← h, length_append] at this
    omega
  have hok : (parseSigMsg zeroBody data (toInt32 data.length)).1 ≠ .ok := by
    obtain hret | hret := parse_none zeroBody hlen hnone <;> rw [hret] <;> decide
  rw [checkReq]
  split
  · rfl
  split
  · rename_i heq
    exact absurd (congrArg Prod.fst heq) hok
  · rename_i heq
    exact absurd (congrArg Prod.fst heq) (parse_ne_errClose _ _ _)
  · rfl

/-- **A frame is read as it was sent**, in whatever pieces it comes. -/
theorem recvLoop_encode {m : SigMsg} (hsize : m.body.length ≤ RESULT_SIZE)
    {pieces : List (List UInt8)}
    {data : List UInt8} (hne : pieces ≠ []) (hpieces : ∀ p ∈ pieces, p ≠ [])
    (h : data ++ pieces.flatten = m.encode) :
    recvLoop stat pieces data result = .ok (doneRet stat, copyAt result 0 m.body) := by
  induction pieces generalizing data with
  | nil => exact absurd rfl hne
  | cons piece pieces ih =>
    rw [flatten_cons, ← append_assoc] at h
    rw [recvLoop]
    cases pieces with
    | nil =>
      rw [flatten_nil, append_nil] at h
      rw [h, checkReq_encode m hsize]
      cases stat <;> rfl
    | cons next pieces =>
      have hrest : (next :: pieces).flatten ≠ [] := by
        rw [flatten_cons]
        exact fun hnil => hpieces next (by simp) (append_eq_nil_iff.mp hnil).1
      rw [checkReq_part h hrest]
      exact ih (cons_ne_nil _ _) (fun p hp => hpieces p (mem_cons_of_mem _ hp)) h

end Pieces

/-! ## 5. What is left in the buffer -/

theorem cText_append {s rest : List UInt8} (h0 : 0 ∉ s) : cText (s ++ rest) = s ++ cText rest :=
  takeWhile_append_of_pos (bne_of_notMem h0)

theorem cText_append_eq (s rest : List UInt8) : ∃ more, cText (s ++ rest) = cText s ++ more := by
  have hpos : 0 ∉ cText s := fun h => by
    have := mem_takeWhile_imp h
    simp at this
  have hsplit : cText s ++ s.dropWhile (· != 0) = s := takeWhile_append_dropWhile
  refine ⟨cText (s.dropWhile (· != 0) ++ rest), ?_⟩
  rw [← cText_append hpos, ← append_assoc, hsplit]

variable {ns errmsg : List UInt8}

theorem cutAddr_eq {zeros : List UInt8} (hns : 58 ∈ cText ns) :
    cutAddr (ns ++ zeros) = (ns ++ zeros).set (ns.idxOf 58) 0 := by
  obtain ⟨more, hmore⟩ := cText_append_eq ns zeros
  have hidx : ns.idxOf 58 = (cText ns).idxOf 58 := by
    have hsplit : cText ns ++ ns.dropWhile (· != 0) = ns := takeWhile_append_dropWhile
    have happ : (cText ns ++ ns.dropWhile (· != 0)).idxOf 58 = (cText ns).idxOf 58 :=
      idxOf_append_of_mem hns
    rwa [hsplit] at happ
  rw [cutAddr, hmore, idxOf_append_of_mem hns, hidx]

theorem cText_eq_nil {s : List UInt8} : cText s = [] ↔ s = [] ∨ s[0]? = some 0 := by
  cases s with
  | nil => exact ⟨fun _ => .inl rfl, fun _ => rfl⟩
  | cons c s =>
    by_cases hc : c = 0
    · simp [cText, hc]
    · simp [cText, hc]

theorem cText_drop_cutAddr {k n : Nat} (hns : 58 ∈ cText ns) :
    cText ((cutAddr (ns ++ List.replicate k 0)).drop n) = [] ↔ Covered ns n := by
  have hmem : 58 ∈ ns := ( takeWhile_prefix _).subset hns
  have hlt : ns.idxOf 58 < ns.length := idxOf_lt_length_of_mem hmem
  rw [cutAddr_eq hns, cText_eq_nil, drop_eq_nil_iff, length_set, length_append, length_replicate,
    getElem?_drop, Nat.add_zero, getElem?_set, length_append]
  unfold Covered
  by_cases hn : ns.length ≤ n
  · rw [if_neg (by omega), getElem?_append_right hn, getElem?_replicate]
    split
    · exact ⟨fun _ => .inl hn, fun _ => .inr rfl⟩
    · exact ⟨fun _ => .inl hn, fun _ => .inl (by omega)⟩
  rw [getElem?_append_left (by omega)]
  by_cases hcolon : ns.idxOf 58 = n
  · rw [if_pos hcolon, if_pos (by omega)]
    exact ⟨fun _ => .inr (.inl hcolon.symm), fun _ => .inr rfl⟩
  rw [if_neg hcolon]
  constructor
  · rintro (h | h)
    · omega
    · exact .inr (.inr h)
  · rintro (h | h | h)
    · omega
    · exact absurd h.symm hcolon
    · exact .inr h

theorem errmsg_of_err {buf : List UInt8} (h0 : 0 ∉ errmsg) :
    cText (copyAt buf 0 errmsg) = errmsg ++ cText (buf.drop errmsg.length) := by
  rw [copyAt, take_zero, nil_append, Nat.zero_add, cText_append h0]

theorem failed_body_le (h : (StorageReply.failed errmsg).Text) : errmsg.length ≤ 65535 := by
  have := h.2
  simp only [RESULT_SIZE, SIG_HEADSIZE] at this
  omega

theorem length_pushRspBody (domain retfile : Path) : (pushRspBody domain retfile).length = 256 :=
  length_charField 256 _

def doneMsg (retfile domain : Path) : SigMsg where
  cmdid := CMD_PUT_FILE_RSP
  status := 0
  body := pushRspBody domain retfile
  body_le := by
    rw [length_pushRspBody]
    decide

theorem frame_done (retfile domain : Path) :
    (StorageReply.done retfile domain).frame = (doneMsg retfile domain).encode := by
  rw [SigMsg.encode, doneMsg, length_pushRspBody]
  rfl

theorem length_doneMsg (retfile domain : Path) :
    (doneMsg retfile domain).body.length ≤ RESULT_SIZE := by
  rw [doneMsg, length_pushRspBody]
  decide

/-- The frames of the nameserver and of the storage, in pieces. -/
structure InPieces (frame : List UInt8) (pieces : List (List UInt8)) : Prop where
  ne_nil : pieces ≠ []
  pieces_ne_nil : ∀ p ∈ pieces, p ≠ []
  flatten : pieces.flatten = frame

theorem createSigMsg_ne_nil (cmdid status : UInt8) (b : List UInt8) (n : Nat) :
    createSigMsg cmdid status b n ≠ [] := cons_ne_nil _ _

theorem InPieces.one {frame : List UInt8} (h : frame ≠ []) : InPieces frame [frame] where
  ne_nil := cons_ne_nil _ _
  pieces_ne_nil p hp := by rwa [mem_singleton.mp hp]
  flatten := flatten_singleton

theorem replies_eq (api : Api) {ns m : SigMsg} {nameserver storage : List (List UInt8)}
    (hns : InPieces ns.encode nameserver) (hst : InPieces m.encode storage)
    (hcolon : 58 ∈ cText ns.body) (hnslen : ns.body.length ≤ RESULT_SIZE)
    (hmlen : m.body.length ≤ RESULT_SIZE) :
    replies api nameserver storage = .ok (some (finish api (copyAt
      (cutAddr (ns.body ++ List.replicate (RESULT_SIZE - ns.body.length) 0)) 0 m.body))) := by
  have hresult : copyAt (List.replicate RESULT_SIZE 0) 0 ns.body =
      ns.body ++ List.replicate (RESULT_SIZE - ns.body.length) 0 := by
    rw [copyAt, take_zero, nil_append, Nat.zero_add, drop_replicate]
  have hmem : 58 ∈ cText (ns.body ++ List.replicate (RESULT_SIZE - ns.body.length) 0) := by
    obtain ⟨more, hmore⟩ :=
      cText_append_eq ns.body (List.replicate (RESULT_SIZE - ns.body.length) 0)
    rw [hmore]
    exact mem_append_left _ hcolon
  have hfirst := @recvLoop_encode .getStorage (List.replicate RESULT_SIZE 0) ns hnslen nameserver []
    hns.ne_nil hns.pieces_ne_nil hns.flatten
  have hsecond := @recvLoop_encode .putData
    (cutAddr (ns.body ++ List.replicate (RESULT_SIZE - ns.body.length) 0)) m hmlen storage []
    hst.ne_nil hst.pieces_ne_nil hst.flatten
  rw [hresult] at hfirst
  rw [replies, hfirst]
  simp only [doneRet, if_true, if_pos hmem]
  rw [hsecond]
  rfl

theorem oneSlash_of_slash {name : Path} (h : name.head? = some slash) :
    oneSlash name = slash :: name.dropWhile (· == slash) := if_pos h

theorem bar_mem_oneSlash {name : Path} : bar ∈ oneSlash name ↔ bar ∈ name := by
  unfold oneSlash
  split
  · have hsplit : name.takeWhile (· == slash) ++ name.dropWhile (· == slash) = name :=
      takeWhile_append_dropWhile
    constructor
    · intro h
      obtain h | h := mem_cons.mp h
      · exact absurd h (by decide)
      · exact (dropWhile_sublist _).subset h
    · intro h
      rw [← hsplit] at h
      obtain h | h := mem_append.mp h
      · exact absurd (mem_takeWhile_imp h) (by decide)
      · exact mem_cons_of_mem _ h
  · exact Iff.rfl

/-- The text of a success gives the name and the domain back exactly under the condition. -/
theorem checkRspFromStorage_iff {retfile domain : Path} (hd : domain.length < 128) :
    checkRspFromStorage (ascii "OK|" ++ (retfile ++ bar :: domain).take 252) =
        some (oneSlash retfile, domain) ↔
      retfile.head? = some slash ∧ bar ∉ retfile ∧ retfile.length + domain.length + 4 < 256 := by
  rw [checkRspFromStorage_ok]
  constructor
  · intro h
    split at h
    case isFalse => cases h
    case isTrue hmem =>
      obtain ⟨hname, hgroup⟩ := Prod.mk.inj (Option.some.inj h)
      -- what is written is the name that the client reads, a '|', the domain, and what is cut off
      obtain ⟨a, b, hs, ha⟩ := eq_append_cons_of_mem hmem
      rw [hs, takeWhile_ne_append_cons ha] at hname
      rw [hs, dropWhile_ne_append_cons ha, drop_succ_cons, drop_zero] at hgroup
      subst hgroup
      have hcut : (retfile ++ bar :: b).drop 252 = [] ↔ retfile.length + b.length + 4 < 256 := by
        rw [drop_eq_nil_iff, length_append, length_cons]
        omega
      have hfull := take_append_drop 252 (retfile ++ bar :: b)
      rw [hs, append_assoc, cons_append] at hfull
      generalize (retfile ++ bar :: b).drop 252 = rest at hcut hfull
      by_cases hslash : a.head? = some slash
      · rw [if_pos hslash] at hname
        have hbar : bar ∉ retfile := by
          rw [← bar_mem_oneSlash, ← hname]
          intro h
          obtain h | h := mem_cons.mp h
          · exact absurd h (by decide)
          · exact ha ((dropWhile_sublist _).subset h)
        obtain ⟨rfl, hrest⟩ := append_cons_inj ha hbar hfull
        exact ⟨hslash, hbar, hcut.mp (append_right_eq_self.mp hrest)⟩
      · -- a name without a separator is read with a '|' in front, and is the return name of nothing
        rw [if_neg hslash] at hname
        have hret : retfile.head? ≠ some slash := by
          intro h
          rw [oneSlash_of_slash h] at hname
          exact absurd (List.cons.inj hname).1 (by decide)
        rw [oneSlash, if_neg hret] at hname
        subst hname
        cases a with
        | nil =>
          have hrest := hcut.mpr (by simp; omega)
          have hlen := congrArg length (List.cons.inj hfull).2
          simp [hrest] at hlen
        | cons c a =>
          rw [(List.cons.inj hfull).1] at ha
          exact absurd mem_cons_self ha
  · rintro ⟨hslash, hbar, hlen⟩
    have hfit : (retfile ++ bar :: domain).take 252 = retfile ++ bar :: domain := by
      refine take_of_length_le ?_
      rw [length_append, length_cons]
      omega
    have hmem : bar ∈ retfile ++ bar :: domain := mem_append_right _ mem_cons_self
    simp only [hfit, if_pos hmem, takeWhile_ne_append_cons hbar, dropWhile_ne_append_cons hbar,
      if_pos hslash, oneSlash_of_slash hslash, drop_succ_cons, drop_zero]

theorem finish_done (api : Api) (buf : List UInt8) {retfile domain : Path}
    (htext : (StorageReply.done retfile domain).Text) :
    (StorageReply.done retfile domain).Decoded
        (finish api (copyAt buf 0 (pushRspBody domain retfile))) ↔
      (StorageReply.done retfile domain).Plain ns := by
  obtain ⟨h0, -, hd, hdlen⟩ := htext
  refine Iff.trans ?_ (checkRspFromStorage_iff hdlen)
  rw [finish, copyAt, take_zero, nil_append, cText_pushRsp _ h0 hd, field256_pushRsp]
  cases checkRspFromStorage (ascii "OK|" ++ (retfile ++ bar :: domain).take 252) with
  | none => exact ⟨fun h => (by cases h.1), fun h => by cases h⟩
  | some r =>
    rw [Option.some.injEq, Prod.ext_iff]
    exact ⟨fun h => h.2, fun h => ⟨rfl, h⟩⟩

theorem checkRspFromStorage_eq_none {errmsg : List UInt8} :
    checkRspFromStorage errmsg = none ↔ ¬ (errmsg.take 3 = ascii "OK|" ∧ bar ∈ errmsg.drop 3) := by
  rw [checkRspFromStorage]
  by_cases h3 : errmsg.take 3 = ascii "OK|"
  · by_cases hbar : bar ∈ errmsg.drop 3
    · simp [h3, hbar]
    · simp [h3, hbar]
  · simp [h3]

theorem take_append_eq_left {s left : List UInt8} {n : Nat} :
    (s ++ left).take n = s ↔ s.length ≤ n ∧ (left = [] ∨ s.length = n) := by
  constructor
  · intro h
    have hlen := congrArg length h
    rw [length_take, length_append] at hlen
    refine ⟨by omega, ?_⟩
    by_cases hn : s.length = n
    · exact .inr hn
    · exact .inl (eq_nil_of_length_eq_zero (by omega))
  · rintro ⟨hle, rfl | hn⟩
    · rw [append_nil, take_of_length_le hle]
    · rw [← hn, take_left]

theorem finish_failed (api : Api) {k : Nat} (h0 : 0 ∉ errmsg) (hcolon : 58 ∈ cText ns) :
    (StorageReply.failed errmsg).Decoded
        (finish api (copyAt (cutAddr (ns ++ List.replicate k 0)) 0 errmsg)) ↔
      (StorageReply.failed errmsg).Plain ns := by
  have htext : field256 (errmsg ++
      cText ((cutAddr (ns ++ List.replicate k 0)).drop errmsg.length)) =
      errmsg ↔ errmsg.length ≤ 255 ∧ (Covered ns errmsg.length ∨ errmsg.length = 255) := by
    rw [field256, take_append_eq_left, cText_drop_cutAddr hcolon]
  have hrsp := @checkRspFromStorage_eq_none errmsg
  rw [finish, errmsg_of_err h0]
  constructor
  · intro h
    cases hc : checkRspFromStorage
        (field256 (errmsg ++ cText ((cutAddr (ns ++ List.replicate k 0)).drop errmsg.length))) with
    | none =>
      rw [hc] at h
      have hsame : field256 _ = errmsg := h.2
      rw [hsame] at hc
      obtain ⟨hlen, hcover⟩ := htext.mp hsame
      exact ⟨hcover, by omega, hrsp.mp hc⟩
    | some r =>
      rw [hc] at h
      exact absurd rfl h.1
  · rintro ⟨hcover, hlen, hok⟩
    have hsame := htext.mpr ⟨by omega, hcover⟩
    rw [hsame, hrsp.mpr hok]
    exact ⟨PfsRet.noConfusion, rfl⟩

/-- **A reply is decoded as it was meant**, behind any reply of the nameserver that names a storage,
    **exactly if**, for a success, its return name begins with a separator, has no '|' and fits the
    body; for a message, nothing is left behind it or it has 255 bytes, and it has less than 256
    bytes and does not read as a success. -/
theorem reply_decoded (api : Api) (ns : SigMsg) (r : StorageReply)
    {nameserver storage : List (List UInt8)}
    (hns : InPieces ns.encode nameserver) (hst : InPieces r.frame storage)
    (hcolon : 58 ∈ cText ns.body) (hnslen : ns.body.length ≤ RESULT_SIZE) (htext : r.Text) :
    ∃ o, replies api nameserver storage = .ok (some o) ∧ (r.Decoded o ↔ r.Plain ns.body) := by
  cases r with
  | done retfile domain =>
    rw [frame_done] at hst
    exact ⟨_, replies_eq api hns hst hcolon hnslen (length_doneMsg retfile domain),
      finish_done api _ htext⟩
  | failed errmsg =>
    let m : SigMsg := ⟨CMD_PUT_FILE_RSP, 0, errmsg, failed_body_le htext⟩
    have hm : m.body.length ≤ RESULT_SIZE := Nat.le_trans htext.2 (by decide)
    exact ⟨_, @replies_eq api ns m _ _ hns hst hcolon hnslen hm, finish_failed api htext.1 hcolon⟩

/-- The nameserver's reply with a storage. -/
def someNs : SigMsg := ⟨0x02, 0, ascii "10.0.0.1:49710", by decide⟩

def someApi : Api := ⟨ascii "/tmp/a", [], [], TASK_ADDFILE, 0, 0⟩

/-- An upload, and a message that is as long as the reply before. -/
theorem reply_decoded_both :
    (∃ o, replies someApi [someNs.encode]
      [(StorageReply.done (ascii "//1/2/x.jpg") (ascii "img1")).frame] =
      .ok (some o) ∧ (StorageReply.done (ascii "//1/2/x.jpg") (ascii "img1")).Decoded o) ∧
    ∃ o, replies someApi [someNs.encode] [(StorageReply.failed (ascii "remote file exist")).frame] =
      .ok (some o) ∧ (StorageReply.failed (ascii "remote file exist")).Decoded o := by
  have hns := InPieces.one (createSigMsg_ne_nil 0x02 0 someNs.body someNs.body.length)
  obtain ⟨o, hdone, hupload⟩ := reply_decoded someApi someNs
    (.done (ascii "//1/2/x.jpg") (ascii "img1")) hns (.one (createSigMsg_ne_nil _ _ _ _))
      (by decide)
    (by decide) ⟨by decide, by decide, by decide, by decide⟩
  obtain ⟨o', hfailed, hmessage⟩ :=
    reply_decoded someApi someNs (.failed (ascii "remote file exist"))
    hns (.one (createSigMsg_ne_nil _ _ _ _)) (by decide) (by decide) ⟨by decide, by decide⟩
  exact ⟨⟨o, hdone, hupload.mpr ⟨by decide, by decide, by decide⟩⟩,
    o', hfailed, hmessage.mpr ⟨.inl (.inl (by decide)), by decide, by decide⟩⟩

/-- A short message has the rest of the address behind it, a delete comes back with a name, and a
    return name ends at a '|' in it. -/
theorem reply_mixed :
    replies someApi [someNs.encode] [(StorageReply.failed (ascii "malloc error!")).frame] =
      .ok (some ⟨.storageFile, ascii "malloc error!0", [], []⟩) ∧
    replies someApi [someNs.encode] [(StorageReply.done [] (ascii "img1")).frame] =
      .ok (some ⟨.ok, ascii "OK||img1", ascii "|", ascii "img1"⟩) ∧
    replies someApi [someNs.encode] [(StorageReply.done (ascii "/1/2/a|b") (ascii "img1")).frame] =
      .ok (some ⟨.ok, ascii "OK|/1/2/a|b|img1", ascii "/1/2/a", ascii "b|img1"⟩) := by
  have hns := InPieces.one (createSigMsg_ne_nil 0x02 0 someNs.body someNs.body.length)
  have hdone : ∀ retfile : Path, 0 ∉ retfile →
      ∃ buf, replies someApi [someNs.encode] [(StorageReply.done retfile (ascii "img1")).frame] =
        .ok (some (finish someApi buf)) ∧
        cText buf = ascii "OK|" ++ (retfile ++ bar :: ascii "img1").take 252 := by
    intro retfile h0
    rw [frame_done]
    exact ⟨_, replies_eq someApi hns (.one (createSigMsg_ne_nil _ _ _ _)) (by decide) (by decide)
      (length_doneMsg retfile _), cText_pushRsp _ h0 (by decide)⟩
  refine ⟨?_, ?_, ?_⟩
  · exact (@replies_eq someApi someNs ⟨CMD_PUT_FILE_RSP, 0, ascii "malloc error!", by decide⟩ _ _
      hns (.one (createSigMsg_ne_nil _ _ _ _)) (by decide) (by decide) (by decide)).trans rfl
  · obtain ⟨buf, hbuf, htext⟩ := hdone [] (by decide)
    rw [hbuf, finish, htext]
    rfl
  · obtain ⟨buf, hbuf, htext⟩ := hdone (ascii "/1/2/a|b") (by decide)
    rw [hbuf, finish, htext]
    rfl

end Client

end Pfs
