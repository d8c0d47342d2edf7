/-
  The nameserver's tables and its `do_req` (network/N).

  A client names a group or a domain and is told the address of a storage. The reply text is
  written with `sprintf` into the zeroed body `ob` and framed in the `obuf` of `do_req`; here both
  are as long as the text needs, and `ReplyFits` says whether the source's buffers are long enough.

  Main result: `replyFits_iff`.
-/
import Pfs.EventLoop

namespace Pfs

open Lib List

/-! ## 1. Tables -/

def HEARTBEAT_REQ : UInt8 := 0x01
def HEARTBEAT_RSP : UInt8 := 0x02
def UPLOAD_REQ : UInt8 := 0x03
def UPLOAD_RSP : UInt8 := 0x04
def LOADINFO_REQ : UInt8 := 0x05
def MODI_DEL_REQ : UInt8 := 0x07
def MODI_DEL_RSP : UInt8 := 0x08

def ADD_SET_GROUP : UInt8 := 0

/-- `obuf` of `do_req`. -/
def OBUF_SIZE : Nat := 2048

/-- `t_pfs_domain`: `domain`, the pairs `ips[j]`, `sips[j]` for `j < ipcount`, and `index`. -/
structure Domain where
  domain : List UInt8
  ips : List (UInt32 × List UInt8)
  index : Nat
  /-- `sips` are `char[16]` -/
  sip_le : ∀ p ∈ ips, p.2.length ≤ 15

def Domain.zero : Domain := ⟨[], [], 0, fun _ h => by cases h⟩

/-- The configuration: `up_port`, `proxy_ip` with `proxy_sip` up to the first zero, and the hash
    lists `domain_change_list` and `storage_select_list`. -/
structure NsConfig where
  initBuffSize : Nat
  upPort : UInt16
  selfStat : UInt8
  proxies : List (UInt32 × List UInt8)
  changes : Fin 16 → List (List UInt8 × List UInt8)
  selects : Fin 16 → List (List UInt8 × Int)

/-- What changes: `group_array` with `bestdomain` up to the first empty name, `alldomain`, and
    which storages are connected. -/
structure NsTables where
  groups : List (List UInt8 × Domain)
  domains : List Domain
  online : UInt32 → Bool

/-- `pfs_fcs_peer`, with the tables that `do_req` reads and changes. -/
structure NsPeer where
  tables : NsTables
  close : Bool
  serverStat : UInt8
  taskcount : UInt32
  load : UInt32
  diskfree : UInt32

/-! ## 2. Lookups -/

/-- A `char` as an `int`. -/
def ofChar (c : UInt8) : Int := if c.toNat < 128 then c.toNat else (c.toNat : Int) - 256

/-- `r5hash` -/
def r5hash (s : List UInt8) : Nat :=
  s.foldl (fun h c => ((11 * (h : Int) + 16 * ofChar c + ofChar c / 16) % 2 ^ 32).toNat) 0

/-- `hash & 0x0F`. -/
def hashSlot (s : List UInt8) : Fin 16 := ⟨r5hash s % 16, Nat.mod_lt _ (by decide)⟩

def updateFirst {α β : Type} (p : β → Bool) (f : β → α × β) : List β → Option (α × List β)
  | [] => none
  | b :: bs =>
    if p b then some ((f b).1, (f b).2 :: bs)
    else (updateFirst p f bs).map fun r => (r.1, b :: r.2)

section UpdateFirst

variable {α β : Type} {p : β → Bool} {f : β → α × β} {bs : List β}

theorem updateFirst_isSome (p : β → Bool) (f : β → α × β) (bs : List β) :
    (updateFirst p f bs).isSome = bs.any p := by
  induction bs with
  | nil => rfl
  | cons b bs ih =>
    by_cases hb : p b = true
    · simp [updateFirst, hb]
    · simp [updateFirst, hb, ih]

theorem updateFirst_find (p : β → Bool) (f : β → α × β) (bs : List β) :
    (updateFirst p f bs).map Prod.fst = (bs.find? p).map fun b => (f b).1 := by
  induction bs with
  | nil => rfl
  | cons b bs ih =>
    by_cases hb : p b = true
    · simp [updateFirst, hb]
    · simpa [updateFirst, hb, Function.comp_def] using ih

theorem updateFirst_split {r : α × List β} (h : updateFirst p f bs = some r) :
    ∃ as b cs, bs = as ++ b :: cs ∧ (∀ x ∈ as, ¬ p x = true) ∧ p b = true ∧
      r = ((f b).1, as ++ (f b).2 :: cs) := by
  induction bs generalizing r with
  | nil => cases h
  | cons b bs ih =>
    by_cases hb : p b = true
    · rw [updateFirst, if_pos hb] at h
      cases h
      exact ⟨[], b, bs, rfl, by simp, hb, rfl⟩
    rw [updateFirst, if_neg hb] at h
    obtain ⟨x, hx, rfl⟩ := Option.map_eq_some_iff.mp h
    obtain ⟨as, c, cs, rfl, has, hc, rfl⟩ := ih hx
    exact ⟨b :: as, c, cs, rfl, forall_mem_cons.mpr ⟨hb, has⟩, hc, rfl⟩

theorem find?_updateFirst {b : β} {r : α × List β} (hp : p b = true) (hf : ∀ x, (f x).2 = b)
    (h : updateFirst p f bs = some r) : r.2.find? p = some b := by
  obtain ⟨as, x, cs, rfl, has, -, rfl⟩ := updateFirst_split h
  rw [find?_append, find?_eq_none.mpr has, Option.none_or, hf, find?_cons_of_pos hp]

theorem map_updateFirst {γ : Type} {r : β → γ} {x : α × List β} (hr : ∀ b, r (f b).2 = r b)
    (h : updateFirst p f bs = some x) : x.2.map r = bs.map r := by
  obtain ⟨as, b, cs, rfl, -, -, rfl⟩ := updateFirst_split h
  simp [hr]

end UpdateFirst

variable (ns : NsConfig)

/-- `get_newname_by_oldname` -/
def getNewnameByOldname (oldname : List UInt8) : Option (List UInt8) :=
  ((ns.changes (hashSlot oldname)).find? fun c => c.1 == oldname).map Prod.snd

/-- `get_type_by_name` -/
def getTypeByName (name : List UInt8) : Int :=
  (((ns.selects (hashSlot name)).find? fun c => c.1 == name).map Prod.snd).getD (-1)

/-- `get_domain`: the copy that the caller is given has the advanced index as well. -/
def getDomain (name : List UInt8) (t : NsTables) : Option (Domain × NsTables) :=
  let advance (d : Domain) : Domain :=
    { d with index := if d.ips.length ≤ d.index + 1 then 0 else d.index + 1 }
  (updateFirst (fun d => d.domain == name) (fun d => (advance d, advance d)) t.domains).map
    fun r => (r.1, { t with domains := r.2 })

/-- A domain by its name, or by the name it has now. -/
def findDomain (name : List UInt8) (t : NsTables) : Option (Domain × NsTables) :=
  match getDomain name t with
  | some r => some r
  | none =>
    match getNewnameByOldname ns name with
    | some newname => getDomain newname t
    | none => none

/-- `index` of `get_valid_ip_4_up`, once it is brought into range; type 1 always starts at 0. -/
def startIndex (d : Domain) : Nat :=
  if getTypeByName ns d.domain = 1 ∨ d.ips.length ≤ d.index then 0 else d.index

/-- What `get_valid_ip_4_up` leaves in `sip`: the first connected storage, or the one at `index` if
    that is connected; empty when there is none. -/
def selectSip (online : UInt32 → Bool) (d : Domain) : List UInt8 :=
  let j := d.ips.findIdx fun p => online p.1
  let first := ((d.ips[j]?).map Prod.snd).getD []
  if getTypeByName ns d.domain ≠ 1 ∧ j ≠ startIndex ns d then
    match d.ips[startIndex ns d]? with
    | some p => if online p.1 then p.2 else first
    | none => first
  else first

/-- `get_valid_ip_4_up`; `none` is the result -1. -/
def getValidIp4Up (online : UInt32 → Bool) (d : Domain) : Option (List UInt8) × Domain :=
  let sip := selectSip ns online d
  (if sip = [] then none else some sip,
    { d with
      index := if getTypeByName ns d.domain ≠ 1 then startIndex ns d + 1 else startIndex ns d })

def storageText : Option (List UInt8) → List UInt8
  | none => ascii "N not found valid storage!"
  | some sip => sip ++ ascii ":" ++ decimal ns.upPort.toNat

/-- `get_dstip_group`: the text it writes. -/
def getDstipGroup (group : List UInt8) (type : UInt8) (t : NsTables) : List UInt8 × NsTables :=
  if group ≠ [] then
    if type = ADD_SET_GROUP then
      let valid (g : List UInt8 × Domain) :=
        ((getValidIp4Up ns t.online g.2).1, (g.1, (getValidIp4Up ns t.online g.2).2))
      match updateFirst (fun g => g.1 == group) valid t.groups with
      | some (sip, groups) => (storageText ns sip, { t with groups := groups })
      | none => (ascii "ERROR group name " ++ group, t)
    else
      match findDomain ns group t with
      | some (d, t) => (storageText ns (getValidIp4Up ns t.online d).1, t)
      | none => (ascii "ERROR group name " ++ group, t)
  else
    -- `bestdomain[0]`, zeros as long as no group has been entered
    match t.groups with
    | [] => (storageText ns (getValidIp4Up ns t.online .zero).1, t)
    | (name, d) :: groups =>
      let r := getValidIp4Up ns t.online d
      (storageText ns r.1, { t with groups := (name, r.2) :: groups })

/-- `get_dstip_group_modi_del`: the text it writes. -/
def getDstipGroupModiDel (domain : List UInt8) (t : NsTables) : List UInt8 × NsTables :=
  if domain ≠ [] then
    match findDomain ns domain t with
    | some (d, t) => (storageText ns (getValidIp4Up ns t.online d).1, t)
    | none => (ascii "domain '" ++ domain ++ ascii "' not found", t)
  else (ascii "domain is NULL", t)

/-! ## 3. `do_req` -/

def cText (b : List UInt8) : List UInt8 := b.takeWhile (· != 0)

/-- A `uint32_t` in memory. -/
def readU32 (b : List UInt8) : UInt32 :=
  UInt32.ofNat ((b.take 4).foldr (fun c n => c.toNat + 256 * n) 0)

/-- `check_proxy_ip`: the address for a client behind a proxy. -/
def checkProxyIp (ip : UInt32) : Option (List UInt8) :=
  (((ns.proxies.take 16).takeWhile fun p => p.1 != 0).find? fun p => p.1 == ip).map Prod.snd

/-- The text that answers an UPLOAD_REQ or a MODI_DEL_REQ. -/
def queryReply (h : SigHead) (name : List UInt8) (t : NsTables) : List UInt8 × NsTables :=
  if h.cmdid = UPLOAD_REQ then getDstipGroup ns name h.status t
  else if h.status = ADD_QUERY_DIR then getDstipGroup ns name ADD_SET_GROUP t
  else getDstipGroupModiDel ns name t

/-- `create_sig_msg`, `set_client_data`, `modify_fd_event(EPOLLOUT)` and `peer->close = 1`. -/
def lastReply (cmdid status : UInt8) (text : List UInt8) (s : Linked NsPeer) : Linked NsPeer where
  peer := { s.peer with close := true }
  wire := (s.wire.say ns.initBuffSize
    (createSigMsg cmdid status text text.length)).modifyFdEvent true

/-- `do_req`; `ip` is the peer's address. -/
def nsDoReq (ip : UInt32) : DoReq (Linked NsPeer) := fun s h b =>
  let rsp := if h.cmdid = UPLOAD_REQ then UPLOAD_RSP else MODI_DEL_RSP
  match checkProxyIp ns ip with
  | some sip =>
    (lastReply ns rsp h.status (sip ++ ascii ":" ++ decimal ns.upPort.toNat) s, RECV_SEND)
  | none =>
    if h.cmdid = HEARTBEAT_REQ then
      -- the reply is queued, but nothing is registered here
      ({ peer := { s.peer with
          serverStat := if h.bodylen ≠ 1 then s.peer.serverStat else b.headD 0 }
         wire := s.wire.say ns.initBuffSize (createSigMsg HEARTBEAT_RSP h.status [ns.selfStat] 1) },
        RECV_SEND)
    else if h.cmdid = UPLOAD_REQ ∨ h.cmdid = MODI_DEL_REQ then
      let r := queryReply ns h (cText b) s.peer.tables
      (lastReply ns rsp h.status r.1 { s with peer := { s.peer with tables := r.2 } }, RECV_SEND)
    else if h.cmdid = LOADINFO_REQ ∧ h.bodylen = 12 then
      ({ s with peer := { s.peer with
          taskcount := readU32 b, load := readU32 (b.drop 4), diskfree := readU32 (b.drop 8) } },
        RECV_ADD_EPOLLIN)
    else (s, RECV_ADD_EPOLLIN)

/-- The nameserver's plug-in for the connection of `ip`: `svc_send` closes after a last reply. -/
def nsPlugin (ip : UInt32) : Plugin NsPeer := ⟨nsDoReq ns ip, fun p => p.close⟩

/-! ## 4. The length of a reply -/

section Length

variable {ns : NsConfig}

theorem selectSip_mem (online : UInt32 → Bool) (d : Domain) :
    selectSip ns online d = [] ∨ ∃ p ∈ d.ips, p.2 = selectSip ns online d := by
  have hget : ∀ j : Nat, ((d.ips[j]?).map Prod.snd).getD [] = [] ∨
      ∃ p ∈ d.ips, p.2 = ((d.ips[j]?).map Prod.snd).getD [] := by
    intro j
    cases hj : d.ips[j]? with
    | none => exact .inl rfl
    | some p => exact .inr ⟨p, mem_of_getElem? hj, rfl⟩
  unfold selectSip
  simp only
  split
  · split
    · rename_i p hp
      split
      · exact .inr ⟨p, mem_of_getElem? hp, rfl⟩
      · exact hget _
    · exact hget _
  · exact hget _

theorem getValidIp4Up_mem {online : UInt32 → Bool} {d : Domain} {sip : List UInt8}
    (h : (getValidIp4Up ns online d).1 = some sip) : ∃ p ∈ d.ips, p.2 = sip := by
  unfold getValidIp4Up at h
  simp only at h
  split at h
  · cases h
  rename_i hne
  cases h
  exact (selectSip_mem online d).resolve_left hne

theorem getValidIp4Up_length {online : UInt32 → Bool} {d : Domain} {sip : List UInt8}
    (h : (getValidIp4Up ns online d).1 = some sip) : sip.length ≤ 15 := by
  obtain ⟨p, hp, rfl⟩ := getValidIp4Up_mem h
  exact d.sip_le p hp

theorem storageText_length {r : Option (List UInt8)} (h : ∀ sip, r = some sip → sip.length ≤ 15) :
    (storageText ns r).length ≤ 26 := by
  cases r with
  | none =>
    change (ascii "N not found valid storage!").length ≤ 26
    decide
  | some sip =>
    have hp : (decimal ns.upPort.toNat).length ≤ 5 :=
      decimal_length_le (Nat.lt_trans ns.upPort.toNat_lt (by decide)) (by decide)
    have hs := h sip rfl
    simp only [storageText, length_append, show (ascii ":").length = 1 from rfl]
    omega

theorem storageText_valid_length (online : UInt32 → Bool) (d : Domain) :
    (storageText ns (getValidIp4Up ns online d).1).length ≤ 26 :=
  storageText_length fun _ h => getValidIp4Up_length h

end Length

/-! ## 5. Replies fit their buffers -/

/-- The name is that of a group that has storages. -/
def KnownGroup (t : NsTables) (name : List UInt8) : Prop := name = [] ∨ ∃ g ∈ t.groups, g.1 = name

/-- The name is, or was, that of a domain. -/
def KnownDomain (t : NsTables) (name : List UInt8) : Prop :=
  name = [] ∨ (∃ d ∈ t.domains, d.domain = name) ∨
    ∃ newname, getNewnameByOldname ns name = some newname ∧ ∃ d ∈ t.domains, d.domain = newname

/-- The request's name is in the table it is looked up in. -/
def Known (h : SigHead) (t : NsTables) (name : List UInt8) : Prop :=
  if h.cmdid = UPLOAD_REQ then
    if h.status = ADD_SET_GROUP then KnownGroup t name else KnownDomain ns t name
  else if h.status = ADD_QUERY_DIR then KnownGroup t name
  else KnownDomain ns t name

/-- The longest name for which the error text still fits `obuf`. -/
def nameRoom (h : SigHead) : Nat :=
  if h.cmdid = UPLOAD_REQ ∨ h.status = ADD_QUERY_DIR then 2027 else 2025

/-- The reply of `do_req` fits: the text with its terminator in `t_pfs_sig_body`, the frame in
    `obuf`, and the frame queued for the client announces the text's length. -/
def ReplyFits (ip : UInt32) (s : Linked NsPeer) (h : SigHead) (b : List UInt8) : Prop :=
  (queryReply ns h (cText b) s.peer.tables).1.length + 1 ≤ MAX_SIG_BODY ∧
    ∃ frame, (nsDoReq ns ip s h b).1.wire.send.contents = s.wire.send.contents ++ frame ∧
      frame.length ≤ OBUF_SIZE ∧
      (headOf frame).bodylen = (queryReply ns h (cText b) s.peer.tables).1.length

section Fits

variable {ns : NsConfig} {t : NsTables}

theorem getDomain_isSome (name : List UInt8) :
    (getDomain name t).isSome = t.domains.any fun d => d.domain == name := by
  unfold getDomain
  simp only [Option.isSome_map]
  exact updateFirst_isSome _ _ _

theorem findDomain_isSome_iff {name : List UInt8} (hne : name ≠ []) :
    (findDomain ns name t).isSome = true ↔ KnownDomain ns t name := by
  have hget : ∀ name, (getDomain name t).isSome = true ↔ ∃ d ∈ t.domains, d.domain = name := by
    intro name
    rw [getDomain_isSome, any_eq_true]
    simp only [beq_iff_eq]
  unfold findDomain KnownDomain
  rw [← hget name]
  cases hd : getDomain name t with
  | some r => simp
  | none =>
    cases hn : getNewnameByOldname ns name with
    | none => simp [hne]
    | some newname =>
      have hnew := hget newname
      simp only [Option.isSome_none, Bool.false_eq_true, Option.some.injEq, exists_eq_left',
        false_or]
      rw [hnew]
      exact ⟨Or.inr, fun h => h.resolve_left hne⟩

theorem getDstipGroup_nil_length (type : UInt8) : (getDstipGroup ns [] type t).1.length ≤ 26 := by
  unfold getDstipGroup
  rw [if_neg (by simp)]
  split <;> exact storageText_valid_length _ _

theorem getDstipGroup_group_length (name : List UInt8) :
    (KnownGroup t name → (getDstipGroup ns name ADD_SET_GROUP t).1.length ≤ 26) ∧
      (¬ KnownGroup t name →
        (getDstipGroup ns name ADD_SET_GROUP t).1.length = 17 + name.length) := by
  by_cases hne : name = []
  · exact ⟨fun _ => hne ▸ getDstipGroup_nil_length _, fun hk => absurd (.inl hne) hk⟩
  rw [getDstipGroup, if_pos hne, if_pos rfl]
  simp only
  generalize hu : updateFirst (fun g : List UInt8 × Domain => g.1 == name)
    (fun g => ((getValidIp4Up ns t.online g.2).1, (g.1, (getValidIp4Up ns t.online g.2).2)))
    t.groups = u
  have hsome : u.isSome = true ↔ KnownGroup t name := by
    rw [← hu, updateFirst_isSome, any_eq_true]
    simp only [beq_iff_eq]
    exact ⟨Or.inr, fun h => h.resolve_left hne⟩
  cases u with
  | none =>
    refine ⟨fun hk => absurd (hsome.mpr hk) Bool.false_ne_true, fun _ => ?_⟩
    simp only [length_append, show (ascii "ERROR group name ").length = 17 from rfl]
  | some r =>
    refine ⟨fun _ => ?_, fun hk => absurd (hsome.mp rfl) hk⟩
    obtain ⟨_, g, _, -, -, -, rfl⟩ := updateFirst_split hu
    exact storageText_valid_length _ _

theorem findDomain_length {name : List UInt8} (hne : name ≠ []) (err : List UInt8) :
    (KnownDomain ns t name →
      (match findDomain ns name t with
        | some (d, t) => (storageText ns (getValidIp4Up ns t.online d).1, t)
        | none => (err, t)).1.length ≤ 26) ∧
    (¬ KnownDomain ns t name →
      (match findDomain ns name t with
        | some (d, t) => (storageText ns (getValidIp4Up ns t.online d).1, t)
        | none => (err, t)).1 = err) := by
  rw [← findDomain_isSome_iff hne]
  cases findDomain ns name t with
  | none => exact ⟨fun hk => absurd hk Bool.false_ne_true, fun _ => rfl⟩
  | some r => exact ⟨fun _ => storageText_valid_length _ _, fun hk => absurd rfl hk⟩

theorem getDstipGroup_domain_length {type : UInt8} (ht : type ≠ ADD_SET_GROUP) (name : List UInt8) :
    (KnownDomain ns t name → (getDstipGroup ns name type t).1.length ≤ 26) ∧
      (¬ KnownDomain ns t name → (getDstipGroup ns name type t).1.length = 17 + name.length) := by
  by_cases hne : name = []
  · exact ⟨fun _ => hne ▸ getDstipGroup_nil_length _, fun hk => absurd (.inl hne) hk⟩
  rw [getDstipGroup, if_pos hne, if_neg ht]
  obtain ⟨hshort, hlong⟩ := @findDomain_length ns t name hne
    (ascii "ERROR group name " ++ name)
  refine ⟨hshort, fun hk => ?_⟩
  rw [hlong hk, length_append]
  rfl

theorem getDstipGroupModiDel_length (name : List UInt8) :
    (KnownDomain ns t name → (getDstipGroupModiDel ns name t).1.length ≤ 26) ∧
      (¬ KnownDomain ns t name → (getDstipGroupModiDel ns name t).1.length = 19 + name.length) := by
  unfold getDstipGroupModiDel
  by_cases hne : name = []
  · rw [if_neg (by simpa using hne)]
    refine ⟨fun _ => ?_, fun hk => absurd (Or.inl hne) hk⟩
    change (ascii "domain is NULL").length ≤ 26
    decide
  · rw [if_pos hne]
    obtain ⟨hshort, hlong⟩ := @findDomain_length ns t name hne
      (ascii "domain '" ++ name ++ ascii "' not found")
    refine ⟨hshort, fun hk => ?_⟩
    rw [hlong hk]
    simp only [length_append, show (ascii "domain '").length = 8 from rfl,
      show (ascii "' not found").length = 11 from rfl]
    omega

/-- **The length of a reply text**: an unknown name is repeated in it. -/
theorem queryReply_length (h : SigHead) (name : List UInt8) :
    (Known ns h t name → (queryReply ns h name t).1.length ≤ 26) ∧
      (¬ Known ns h t name →
        (queryReply ns h name t).1.length = 2044 - nameRoom h + name.length) := by
  unfold queryReply Known nameRoom
  by_cases hu : h.cmdid = UPLOAD_REQ
  · simp only [if_pos hu, if_pos (Or.inl hu : h.cmdid = UPLOAD_REQ ∨ h.status = ADD_QUERY_DIR)]
    by_cases hs : h.status = ADD_SET_GROUP
    · rw [if_pos hs, hs]
      exact getDstipGroup_group_length name
    · rw [if_neg hs]
      exact getDstipGroup_domain_length hs name
  · simp only [if_neg hu]
    by_cases hs : h.status = ADD_QUERY_DIR
    · simp only [if_pos hs, if_pos (Or.inr hs : h.cmdid = UPLOAD_REQ ∨ h.status = ADD_QUERY_DIR)]
      exact getDstipGroup_group_length name
    simp only [if_neg hs,
      if_neg (not_or.mpr ⟨hu, hs⟩ : ¬ (h.cmdid = UPLOAD_REQ ∨ h.status = ADD_QUERY_DIR))]
    exact getDstipGroupModiDel_length name

theorem nsDoReq_query {ip : UInt32} {h : SigHead} (hp : checkProxyIp ns ip = none)
    (hq : h.cmdid = UPLOAD_REQ ∨ h.cmdid = MODI_DEL_REQ) (s : Linked NsPeer) (b : List UInt8) :
    ∃ rsp, (nsDoReq ns ip s h b).1.wire.send.contents = s.wire.send.contents ++
      createSigMsg rsp h.status (queryReply ns h (cText b) s.peer.tables).1
        (queryReply ns h (cText b) s.peer.tables).1.length := by
  have hnot : h.cmdid ≠ HEARTBEAT_REQ := by
    rcases hq with e | e <;> rw [e] <;> decide
  unfold nsDoReq
  simp only [hp, if_neg hnot, if_pos hq]
  exact ⟨_, Wire.contents_say _ _ _⟩

theorem createSigMsg_text (cmdid status : UInt8) (text : List UInt8) :
    (createSigMsg cmdid status text text.length).length = 4 + text.length % 2 ^ 16 ∧
      (headOf (createSigMsg cmdid status text text.length)).bodylen = text.length % 2 ^ 16 := by
  have hlt : text.length % 2 ^ 16 < MAX_SIG_BODY := Nat.mod_lt _ (by decide)
  have hle : text.length % 2 ^ 16 ≤ text.length := Nat.mod_le _ _
  unfold createSigMsg
  simp only
  refine ⟨?_, by rw [headOf_headBytes hlt]⟩
  simp only [length_append, length_take, headBytes, length_cons, length_nil]
  omega

theorem replyFits_iff_length {ip : UInt32} {h : SigHead} (hp : checkProxyIp ns ip = none)
    (hq : h.cmdid = UPLOAD_REQ ∨ h.cmdid = MODI_DEL_REQ) (s : Linked NsPeer) (b : List UInt8) :
    ReplyFits ns ip s h b ↔ (queryReply ns h (cText b) s.peer.tables).1.length ≤ 2044 := by
  obtain ⟨rsp, hsaid⟩ := nsDoReq_query hp hq s b
  obtain ⟨hlen, hhead⟩ :=
    createSigMsg_text rsp h.status (queryReply ns h (cText b) s.peer.tables).1
  unfold ReplyFits
  rw [hsaid]
  generalize (queryReply ns h (cText b) s.peer.tables).1 = text at hlen hhead ⊢
  simp only [append_cancel_left_eq, exists_eq_left', hlen, hhead, MAX_SIG_BODY, OBUF_SIZE]
  omega

/-- **A reply fits its buffers exactly when the requested name is known or short enough.** -/
theorem replyFits_iff {ip : UInt32} {h : SigHead} (hp : checkProxyIp ns ip = none)
    (hq : h.cmdid = UPLOAD_REQ ∨ h.cmdid = MODI_DEL_REQ) (s : Linked NsPeer) (b : List UInt8) :
    ReplyFits ns ip s h b ↔
      Known ns h s.peer.tables (cText b) ∨ (cText b).length ≤ nameRoom h := by
  obtain ⟨hknown, hunknown⟩ := @queryReply_length ns s.peer.tables h (cText b)
  have hroom : nameRoom h ≤ 2044 := by
    unfold nameRoom
    split <;> decide
  rw [replyFits_iff_length hp hq]
  by_cases hk : Known ns h s.peer.tables (cText b)
  · have hshort := hknown hk
    exact ⟨fun _ => Or.inl hk, fun _ => by omega⟩
  have hlong := hunknown hk
  constructor
  · intro hle
    exact .inr (by omega)
  · intro hor
    have := hor.resolve_left hk
    omega

end Fits

/-! ## 6. A nameserver without entries -/

theorem cText_paddedBody {name : List UInt8} (h0 : ∀ c ∈ name, c ≠ 0)
    (hlen : name.length < MAX_SIG_BODY) : cText (paddedBody name) = name := by
  obtain ⟨k, hk⟩ := Nat.exists_eq_add_one_of_ne_zero (Nat.sub_ne_zero_of_lt hlen)
  rw [paddedBody_eq, hk, replicate_succ]
  exact takeWhile_ne_append_cons (fun h => h0 0 h rfl) _

def emptyNs : NsConfig := ⟨16, 59090, 3, [], fun _ => [], fun _ => []⟩

def emptyLinked : Linked NsPeer :=
  ⟨⟨⟨[], [], fun _ => false⟩, false, 0, 0, 0, 0⟩, ⟨mybuffInit, false⟩⟩

theorem replyFits_unknown_short :
    checkProxyIp emptyNs 1 = none ∧
      ReplyFits emptyNs 1 emptyLinked ⟨3, UPLOAD_REQ, ADD_SET_GROUP⟩ (ascii "abc") :=
  ⟨rfl, (replyFits_iff rfl (Or.inl rfl) emptyLinked (ascii "abc")).mpr (Or.inr (by decide))⟩

/-- An unknown group name of 2028 characters: the frame is one byte longer than `obuf`. -/
theorem reply_overflows_obuf :
    ¬ ReplyFits emptyNs 1 emptyLinked ⟨2028, UPLOAD_REQ, ADD_SET_GROUP⟩
      (paddedBody (List.replicate 2028 97)) := by
  have hname : cText (paddedBody (List.replicate 2028 97)) = List.replicate 2028 97 :=
    cText_paddedBody (fun c hc => by rw [eq_of_mem_replicate hc]; decide)
      (by rw [length_replicate]; decide)
  have hk : ¬ Known emptyNs ⟨2028, UPLOAD_REQ, ADD_SET_GROUP⟩ emptyLinked.peer.tables
      (List.replicate 2028 97) := by
    rintro (h | ⟨g, hg, -⟩)
    · exact absurd (congrArg List.length h) (by rw [length_replicate]; decide)
    · cases hg
  rw [replyFits_iff_length rfl (Or.inl rfl), hname, (queryReply_length _ _).2 hk, length_replicate]
  decide

end Pfs
