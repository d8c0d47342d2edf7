/-
  Where the client library sends its operations (lib/pfs_api.c), with the cache of the
  storage that the nameserver named first.

  The cache has one entry, which is kept as long as the thread runs, and it is not asked what it was
  filled for. `clientStep` runs the operations of one thread; between them the nameserver answers
  others, which moves the rotation of its tables and nothing else (`reset_nsAnswer`).

  Main results: `sent_couldReturn`, `cache_wrong_domain`.
-/
import Pfs.Nameserver

namespace Pfs

open Lib List

def Domain.reset (d : Domain) : Domain := { d with index := 0 }

def NsTables.reset (t : NsTables) : NsTables where
  groups := t.groups.map fun g => (g.1, g.2.reset)
  domains := t.domains.map Domain.reset
  online := t.online

namespace Client

/-! ## 1. Requests -/

def ADD_PATH_BY_UPLOAD : UInt8 := 1
def ADD_DIR_BY_UPLOAD : UInt8 := 4

def TASK_MODYFILE : UInt8 := 50

/-- `t_api_info`, without `errmsg`. -/
structure Api where
  localfile : List UInt8
  remotefile : List UInt8
  group : List UInt8
  type : UInt8
  addtype : UInt8
  nametype : UInt8
  deriving DecidableEq, Repr

inductive ClientStat where
  | getStorage
  | putData
  deriving DecidableEq, Repr

/-- The local file: what `get_localfile_stat` finds out (`mtime`, `fsize`, `filemd5`), and whether
    it can be opened. -/
structure LocalStat where
  stat : Option (Int × Int × List UInt8)
  opens : Bool
  deriving DecidableEq, Repr

/-- What `create_req_msg` puts into the send buffer: a query for the nameserver, or the head and
    record of CMD_PUT_FILE_REQ with the file to send behind it. -/
inductive Request where
  | query (cmdid status : UInt8) (body : List UInt8)
  | put (addtype : UInt8) (base : TaskBase) (file : Option (List UInt8 × Int))
  deriving DecidableEq, Repr

/-- `snprintf` into a field of 256 bytes. -/
def field256 (s : List UInt8) : List UInt8 := s.take 255

/-- `create_req_msg` -/
def createReqMsg (stat : ClientStat) (file : LocalStat) (api : Api) : Option Request :=
  match stat with
  | .getStorage =>
    if api.type = TASK_ADDFILE then some (.query UPLOAD_REQ api.nametype api.group)
    else some (.query MODI_DEL_REQ api.addtype api.group)
  | .putData =>
    if api.type = TASK_DELFILE then
      some (.put api.addtype
        { TaskBase.zero with type := api.type, filename := field256 api.remotefile } none)
    else
      match file.stat with
      | none => none
      | some (mtime, fsize, filemd5) =>
        if fsize = 0 then none
        else
          let modi := api.type = TASK_MODYFILE
          let addtype := if modi then ADD_PATH_BY_UPLOAD else api.addtype
          let filename :=
            if addtype = ADD_DIR_BY_UPLOAD then field256 api.remotefile
            else if modi then field256 (ascii "/" ++ api.remotefile)
            else field256 api.localfile
          if file.opens then
            some (.put addtype
              { TaskBase.zero with
                type := api.type, filename := filename, mtime := mtime, fsize := fsize,
                filemd5 := filemd5 }
              (some (api.localfile, fsize)))
          else none

/-! ## 2. The nameserver's answer -/

variable (ns : NsConfig) (ip : UInt32)

/-- The text with which `do_req` answers an UPLOAD_REQ or a MODI_DEL_REQ of a client at `ip`. -/
def nsAnswer (h : SigHead) (b : List UInt8) (t : NsTables) : List UInt8 × NsTables :=
  match checkProxyIp ns ip with
  | some sip => (storageText ns (some sip), t)
  | none => queryReply ns h (cText b) t

/-- `atol`, which is `strtol`: white space, a sign, digits; the value as a `long`. -/
def atol (s : List UInt8) : Int :=
  let s := s.dropWhile fun c => c == 32 || (9 ≤ c && c ≤ 13)
  let digits (s : List UInt8) : Int := readDecimal (s.takeWhile fun c => 48 ≤ c && c ≤ 57)
  match s with
  | 45 :: s => max (-2 ^ 63) (-digits s)
  | 43 :: s => min (2 ^ 63 - 1) (digits s)
  | s => min (2 ^ 63 - 1) (digits s)

/-- `atoi`: the value of `strtol` as an `int`. -/
def atoi (s : List UInt8) : Int := toInt32 (atol s)

/-- An address as `createsocket` is given it. -/
abbrev Addr := List UInt8 × Int

/-- The address in an answer: the text up to the first `:`, and the number behind it. -/
def parseAddr (text : List UInt8) : Option Addr :=
  let s := cText text
  if 58 ∈ s then some (s.takeWhile (· != 58), atoi ((s.dropWhile (· != 58)).drop 1)) else none

/-! ## 3. The way of an operation -/

/-- `t_api_cache`; `uptime` is never read. -/
structure ApiCache where
  ip : List UInt8
  port : Int
  fd : Int
  deriving DecidableEq, Repr

/-- The thread's variables and the nameserver's tables, and a mark the program does not have: the
    operations sent so far, each with the address it was sent to. -/
structure ClientSt where
  flag : Bool
  cache : ApiCache
  tables : NsTables
  sent : List (Api × Addr)

/-- How the environment behaves in one operation: whether each `createsocket` succeeds, whether the
    nameserver's answer arrives, and the local file. -/
structure OpEnv where
  cacheUp : Bool
  nsUp : Bool
  answered : Bool
  storageUp : Bool
  file : LocalStat
  deriving DecidableEq, Repr

inductive OpEnd where
  | errType
  | infoUncom
  | conNameserver
  | noAnswer
  | localFile
  | conStorage
  | sent (a : Addr) (req : Request)
  deriving DecidableEq, Repr

/-- `init_ns_cache` -/
def initNsCache (t : NsTables) : ClientSt := ⟨true, ⟨[], 0, 0⟩, t, []⟩

/-- The storage that the cache offers: the open descriptor, or a new connection. -/
def cached (s : ClientSt) (env : OpEnv) : Option Addr :=
  if s.flag ∧ 0 < s.cache.port then
    if 0 < s.cache.fd ∨ env.cacheUp then some (s.cache.ip, s.cache.port) else none
  else none

/-- `connect_storage`: the first storage that is reached is kept, `ip` up to 15 characters. -/
def connectStorage (text : List UInt8) (up : Bool) (s : ClientSt) : Option Addr × ApiCache :=
  match parseAddr text with
  | none => (none, s.cache)
  | some a =>
    if up then
      (some a, if s.flag ∧ s.cache.port = 0 then ⟨a.1.take 15, a.2, -1⟩ else s.cache)
    else (none, s.cache)

/-- `upload_file_inter`, up to the request that is queued for the storage. -/
def uploadFileInter (api : Api) (env : OpEnv) (s : ClientSt) : OpEnd × ClientSt :=
  match cached s env with
  | some a =>
    match createReqMsg .putData env.file api with
    | none => (.localFile, s)
    | some req => (.sent a req, { s with sent := s.sent ++ [(api, a)] })
  | none =>
    if env.nsUp then
      match createReqMsg .getStorage env.file api with
      | some (.query cmdid status body) =>
        if env.answered then
          let r := nsAnswer ns ip ⟨body.length, cmdid, status⟩ body s.tables
          match createReqMsg .putData env.file api with
          | none => (.localFile, { s with tables := r.2 })
          | some req =>
            match connectStorage r.1 env.storageUp s with
            | (none, cache) => (.conStorage, { s with tables := r.2, cache := cache })
            | (some a, cache) =>
              (.sent a req,
                { s with tables := r.2, cache := cache, sent := s.sent ++ [(api, a)] })
        else (.noAnswer, s)
      | _ => (.localFile, s)
    else (.conNameserver, s)

/-- `operate_pfs` -/
def operatePfs (api : Api) (env : OpEnv) (s : ClientSt) : OpEnd × ClientSt :=
  if TASK_MODYFILE < api.type ∨ api.type < TASK_ADDFILE then (.errType, s)
  else if api.type = TASK_ADDFILE then
    if api.localfile = [] then (.infoUncom, s) else uploadFileInter ns ip api env s
  else if api.remotefile = [] ∨ api.group = [] then (.infoUncom, s)
  else uploadFileInter ns ip api env s

/-- An operation of the thread, or a request that the nameserver answers without the thread reading
    the answer: of another client, or of an operation that had given up. -/
inductive ClientAct where
  | operate (api : Api) (env : OpEnv)
  | other (ip : UInt32) (h : SigHead) (b : List UInt8)

def clientStep (s : ClientSt) : ClientAct → Option ClientSt
  | .operate api env => some (operatePfs ns ip api env s).2
  | .other ip h b => some { s with tables := (nsAnswer ns ip h b s.tables).2 }

/-! ## 4. What the nameserver could have returned -/

/-- The head of the request for a storage. -/
def queryHead (api : Api) : SigHead :=
  if api.type = TASK_ADDFILE then ⟨api.group.length, UPLOAD_REQ, api.nametype⟩
  else ⟨api.group.length, MODI_DEL_REQ, api.addtype⟩

def nsStep (t : NsTables) (q : UInt32 × SigHead × List UInt8) : Option NsTables :=
  some (nsAnswer ns q.1 q.2.1 q.2.2 t).2

/-- After some requests of clients, the nameserver answers the operation's own request with a
    storage, and this is the address the client reads in the answer. -/
def CouldReturn (t : NsTables) (api : Api) (a : Addr) : Prop :=
  ∃ t', Reach (nsStep ns) t t' ∧ ∃ sip,
    (nsAnswer ns ip (queryHead api) api.group t').1 = storageText ns (some sip) ∧
      parseAddr (storageText ns (some sip)) = some a

/-- The entry of the tables that a request is answered from. -/
inductive Entry where
  | proxy
  | first
  | group (name : List UInt8)
  | domain (name : List UInt8)
  | unknown
  deriving DecidableEq, Repr

def groupEntry (name : List UInt8) (t : NsTables) : Entry :=
  if name = [] then .first
  else if t.groups.any fun g => g.1 == name then .group name
  else .unknown

def domainEntry (name : List UInt8) (t : NsTables) : Entry :=
  if t.domains.any fun d => d.domain == name then .domain name
  else
    match getNewnameByOldname ns name with
    | some newname =>
      if t.domains.any fun d => d.domain == newname then .domain newname else .unknown
    | none => .unknown

/-- The entry for a request of the client. -/
def entryOf (h : SigHead) (b : List UInt8) (t : NsTables) : Entry :=
  match checkProxyIp ns ip with
  | some _ => .proxy
  | none =>
    if h.cmdid = UPLOAD_REQ then
      if h.status = ADD_SET_GROUP ∨ cText b = [] then groupEntry (cText b) t
      else domainEntry ns (cText b) t
    else if h.status = ADD_QUERY_DIR then groupEntry (cText b) t
    else if cText b = [] then .unknown
    else domainEntry ns (cText b) t

/-! ## 5. Answering moves the rotation and nothing else -/

section Rotation

variable {ns : NsConfig} {ip : UInt32} {t t' : NsTables}

theorem reset_getDomain {name : List UInt8} {d : Domain} (h : getDomain name t = some (d, t')) :
    t'.reset = t.reset := by
  obtain ⟨x, hx, he⟩ := Option.map_eq_some_iff.mp h
  cases he
  unfold NsTables.reset
  simp only
  rw [map_updateFirst (fun _ => rfl) hx]

theorem reset_findDomain {name : List UInt8} {d : Domain}
    (h : findDomain ns name t = some (d, t')) : t'.reset = t.reset := by
  unfold findDomain at h
  split at h
  · rename_i r hr
    cases h
    exact reset_getDomain hr
  · split at h
    · exact reset_getDomain h
    · cases h

theorem reset_getDstipGroup (name : List UInt8) (type : UInt8) (t : NsTables) :
    (getDstipGroup ns name type t).2.reset = t.reset := by
  unfold getDstipGroup
  split
  · split
    · simp only
      split
      · rename_i sip groups hu
        unfold NsTables.reset
        simp only
        rw [map_updateFirst (fun _ => rfl) hu]
      · rfl
    · split
      · rename_i d t' hf
        exact reset_findDomain hf
      · rfl
  · split
    · rfl
    rename_i hg
    unfold NsTables.reset
    simp only [hg, map_cons]
    rfl

theorem reset_getDstipGroupModiDel (name : List UInt8) (t : NsTables) :
    (getDstipGroupModiDel ns name t).2.reset = t.reset := by
  unfold getDstipGroupModiDel
  split
  · split
    · rename_i d t' hf
      exact reset_findDomain hf
    · rfl
  · rfl

/-- **An answer changes rotation indices only.** -/
theorem reset_nsAnswer (h : SigHead) (b : List UInt8) (t : NsTables) :
    (nsAnswer ns ip h b t).2.reset = t.reset := by
  unfold nsAnswer queryReply
  split
  · rfl
  split
  · exact reset_getDstipGroup _ _ _
  split
  · exact reset_getDstipGroup _ _ _
  · exact reset_getDstipGroupModiDel _ _

theorem reset_of_reach (h : Reach (nsStep ns) t t') : t'.reset = t.reset :=
  h.inv (I := fun x => x.reset = t.reset) rfl fun _ _ _ hi _ hs => by
    cases hs
    exact (reset_nsAnswer _ _ _).trans hi

theorem any_group_reset (name : List UInt8) (t : NsTables) :
    (t.groups.any fun g => g.1 == name) = t.reset.groups.any fun g => g.1 == name := by
  simp [NsTables.reset, any_map, Function.comp_def]

theorem any_domain_reset (name : List UInt8) (t : NsTables) :
    (t.domains.any fun d => d.domain == name) = t.reset.domains.any fun d => d.domain == name := by
  simp [NsTables.reset, any_map, Function.comp_def, Domain.reset]

theorem entryOf_reset (h : SigHead) (b : List UInt8) (ht : t'.reset = t.reset) :
    entryOf ns ip h b t' = entryOf ns ip h b t := by
  unfold entryOf groupEntry domainEntry
  simp only [any_group_reset _ t', any_group_reset _ t, any_domain_reset _ t', any_domain_reset _ t,
    ht]

end Rotation

/-! ## 6. The answer from an entry -/

def entrySip (t : NsTables) : Entry → Option (List UInt8)
  | .proxy => checkProxyIp ns ip
  | .first =>
    (getValidIp4Up ns t.online
      (match t.groups with
        | [] => .zero
        | g :: _ => g.2)).1
  | .group name =>
    (t.groups.find? fun g => g.1 == name).bind fun g => (getValidIp4Up ns t.online g.2).1
  | .domain name => (getDomain name t).bind fun r => (getValidIp4Up ns r.2.online r.1).1
  | .unknown => none

/-- A text answers for an entry: it is the text for its storage, or an error text with no colon
    that is not in the requested name. -/
def AnswersFor (t : NsTables) (name text : List UInt8) (e : Entry) : Prop :=
  e ≠ .unknown ∧ text = storageText ns (entrySip ns ip t e) ∨
    e = .unknown ∧ ∀ c ∈ text, c = 58 → c ∈ name

section Answers

variable {ns : NsConfig} {ip : UInt32} {t : NsTables}

theorem mem_error_name {pre name post : List UInt8} (hpre : 58 ∉ pre) (hpost : 58 ∉ post) :
    ∀ c ∈ pre ++ name ++ post, c = 58 → c ∈ name := by
  intro c hc h58
  rw [h58] at hc ⊢
  simp only [mem_append, hpre, hpost, or_false, false_or] at hc
  exact hc

theorem answersFor_group {name : List UInt8} {type : UInt8} (h : type = ADD_SET_GROUP ∨ name = []) :
    AnswersFor ns ip t name (getDstipGroup ns name type t).1 (groupEntry name t) := by
  unfold getDstipGroup groupEntry
  by_cases hne : name = []
  · rw [if_neg (not_not.mpr hne), if_pos hne]
    refine .inl ⟨Entry.noConfusion, ?_⟩
    unfold entrySip
    cases t.groups with
    | nil => rfl
    | cons g gs => rfl
  rw [if_pos hne, if_pos (h.resolve_right hne), if_neg hne]
  have hfind := updateFirst_find (fun g : List UInt8 × Domain => g.1 == name)
    (fun g => ((getValidIp4Up ns t.online g.2).1, (g.1, (getValidIp4Up ns t.online g.2).2)))
    t.groups
  have hany := updateFirst_isSome (fun g : List UInt8 × Domain => g.1 == name)
    (fun g => ((getValidIp4Up ns t.online g.2).1, (g.1, (getValidIp4Up ns t.online g.2).2)))
    t.groups
  simp only
  cases hu : updateFirst (fun g : List UInt8 × Domain => g.1 == name)
    (fun g => ((getValidIp4Up ns t.online g.2).1, (g.1, (getValidIp4Up ns t.online g.2).2)))
    t.groups with
  | none =>
    rw [hu] at hany
    rw [if_neg (by rw [← hany]; decide)]
    refine .inr ⟨rfl, ?_⟩
    have := @mem_error_name (ascii "ERROR group name ") name [] (by decide) (by decide)
    rwa [append_nil] at this
  | some r =>
    rw [hu] at hany hfind
    rw [if_pos (by rw [← hany]; rfl)]
    refine .inl ⟨Entry.noConfusion, ?_⟩
    obtain ⟨g, hg, hr⟩ := Option.map_eq_some_iff.mp hfind.symm
    simp only [entrySip, hg, Option.bind_some]
    exact congrArg (storageText ns) hr.symm

theorem domainEntry_cases (ns : NsConfig) (name : List UInt8) (t : NsTables) :
    (∃ n r, domainEntry ns name t = .domain n ∧ findDomain ns name t = some r ∧
      getDomain n t = some r) ∨
    domainEntry ns name t = .unknown ∧ findDomain ns name t = none := by
  unfold domainEntry findDomain
  rw [← getDomain_isSome]
  cases hd : getDomain name t with
  | some r => exact .inl ⟨name, r, rfl, rfl, hd⟩
  | none =>
    cases hn : getNewnameByOldname ns name with
    | none => exact .inr ⟨rfl, rfl⟩
    | some newname =>
      simp only [Option.isSome_none, Bool.false_eq_true, if_false, ← getDomain_isSome]
      cases hd' : getDomain newname t with
      | some r => exact .inl ⟨newname, r, rfl, rfl, hd'⟩
      | none => exact .inr ⟨rfl, rfl⟩

theorem answersFor_domain {name err : List UInt8} (herr : ∀ c ∈ err, c = 58 → c ∈ name) :
    AnswersFor ns ip t name
      (match findDomain ns name t with
        | some (d, t) => (storageText ns (getValidIp4Up ns t.online d).1, t)
        | none => (err, t)).1 (domainEntry ns name t) := by
  obtain ⟨n, r, he, hf, hd⟩ | ⟨he, hf⟩ := domainEntry_cases ns name t
  · rw [he, hf]
    refine .inl ⟨Entry.noConfusion, ?_⟩
    simp only [entrySip, hd, Option.bind_some]
  · rw [he, hf]
    exact .inr ⟨rfl, herr⟩

theorem nsAnswer_entry (h : SigHead) (b : List UInt8) (t : NsTables) :
    AnswersFor ns ip t (cText b) (nsAnswer ns ip h b t).1 (entryOf ns ip h b t) := by
  have hgroup : ∀ c ∈ ascii "ERROR group name " ++ cText b, c = 58 → c ∈ cText b := by
    have := @mem_error_name (ascii "ERROR group name ") (cText b) [] (by decide) (by decide)
    rwa [append_nil] at this
  have hdomain := @mem_error_name (ascii "domain '") (cText b) (ascii "' not found") (by decide)
    (by decide)
  unfold nsAnswer entryOf
  cases hp : checkProxyIp ns ip with
  | some sip =>
    refine .inl ⟨Entry.noConfusion, ?_⟩
    simp only [entrySip, hp]
  | none =>
    unfold queryReply
    simp only
    by_cases hu : h.cmdid = UPLOAD_REQ
    · rw [if_pos hu, if_pos hu]
      by_cases hs : h.status = ADD_SET_GROUP ∨ cText b = []
      · rw [if_pos hs]
        exact answersFor_group hs
      obtain ⟨hset, hne⟩ := not_or.mp hs
      rw [if_neg hs]
      unfold getDstipGroup
      rw [if_pos hne, if_neg hset]
      exact answersFor_domain hgroup
    · rw [if_neg hu, if_neg hu]
      by_cases hs : h.status = ADD_QUERY_DIR
      · rw [if_pos hs, if_pos hs]
        exact answersFor_group (.inl rfl)
      rw [if_neg hs, if_neg hs]
      unfold getDstipGroupModiDel
      by_cases hne : cText b = []
      · rw [if_neg (not_not.mpr hne), if_pos hne]
        refine .inr ⟨rfl, fun c hc h58 => ?_⟩
        rw [h58] at hc
        exact absurd hc (show 58 ∉ ascii "domain is NULL" by decide)
      · rw [if_pos hne, if_neg hne]
        exact answersFor_domain hdomain

theorem entrySip_length (hsip : ∀ p ∈ ns.proxies, p.2.length ≤ 15) {e : Entry} {sip : List UInt8}
    (h : entrySip ns ip t e = some sip) : sip.length ≤ 15 := by
  cases e with
  | proxy =>
    obtain ⟨p, hp, rfl⟩ := Option.map_eq_some_iff.mp h
    have hmem := mem_of_find?_eq_some hp
    exact hsip p (mem_of_mem_take ((takeWhile_sublist _).subset hmem))
  | first => exact getValidIp4Up_length h
  | group name =>
    obtain ⟨g, -, hg⟩ := Option.bind_eq_some_iff.mp h
    exact getValidIp4Up_length hg
  | domain name =>
    obtain ⟨r, -, hr⟩ := Option.bind_eq_some_iff.mp h
    exact getValidIp4Up_length hr
  | unknown => cases h

end Answers

/-! ## 7. The address in an answer -/

section Address

variable {ns : NsConfig} {ip : UInt32} {t : NsTables} {a : Addr}

theorem parseAddr_none_storage : parseAddr (storageText ns none) = none := by
  change parseAddr (ascii "N not found valid storage!") = none
  decide

theorem takeWhile_cut_length {p q : UInt8 → Bool} (hp : p 58 = false) (xs ys : List UInt8) :
    (((xs ++ 58 :: ys).takeWhile q).takeWhile p).length ≤ xs.length := by
  rw [takeWhile_takeWhile, takeWhile_append, takeWhile_cons_of_neg (by simp [hp]), append_nil]
  split
  · exact Nat.le_refl _
  · exact (takeWhile_sublist _).length_le

theorem parseAddr_length {sip : List UInt8} (h : parseAddr (storageText ns (some sip)) = some a) :
    a.1.length ≤ sip.length := by
  unfold parseAddr at h
  simp only at h
  split at h
  · cases h
    have := @takeWhile_cut_length (· != 58) (· != 0) (by decide) sip (decimal ns.upPort.toNat)
    simpa [storageText, cText, show ascii ":" = [58] from rfl] using this
  · cases h

theorem atol_digits {s : List UInt8} (hs : s ≠ []) (hd : ∀ c ∈ s, 48 ≤ c.toNat ∧ c.toNat ≤ 57) :
    atol s = min (2 ^ 63 - 1) (readDecimal s : Int) := by
  have htake : s.takeWhile (fun c => 48 ≤ c && c ≤ 57) = s := by
    refine takeWhile_eq_self_iff.mpr fun c hc => ?_
    obtain ⟨h0, h1⟩ := hd c hc
    simp only [Bool.and_eq_true, decide_eq_true_eq]
    exact ⟨UInt8.le_iff_toNat_le.mpr h0, UInt8.le_iff_toNat_le.mpr h1⟩
  obtain ⟨c, cs, rfl⟩ := exists_cons_of_ne_nil hs
  obtain ⟨h0, h1⟩ := hd c mem_cons_self
  have hne : ∀ x : UInt8, x.toNat < 48 → c ≠ x := by
    intro x hx e
    rw [e] at h0
    omega
  have hdrop : (c :: cs).dropWhile (fun c => c == 32 || (9 ≤ c && c ≤ 13)) = c :: cs := by
    have h13 : ¬ c ≤ 13 := by
      intro hle
      have := UInt8.le_iff_toNat_le.mp hle
      simp only [UInt8.reduceToNat] at this
      omega
    simp [hne 32 (by decide), h13]
  unfold atol
  simp only [hdrop]
  split
  · rename_i heq
    cases heq
    exact absurd rfl (hne 45 (by decide))
  · rename_i heq
    cases heq
    exact absurd rfl (hne 43 (by decide))
  · rw [htake]

theorem atoi_decimal {n : Nat} (h : n < 2 ^ 31) : atoi (decimal n) = n := by
  have hmin : min (2 ^ 63 - 1 : Int) n = n := by omega
  rw [atoi, atol_digits (decimal_ne_nil n) fun c hc => decimal_digit hc, readDecimal_decimal,
    hmin]
  exact toInt32_of_lt (by omega) (by omega)

/-- **The address read in a storage's text is that storage's**, when its text is that of an
    address. -/
theorem parseAddr_storage {sip : List UInt8} (h : ∀ c ∈ sip, c ≠ 0 ∧ c ≠ 58) :
    parseAddr (storageText ns (some sip)) = some (sip, (ns.upPort.toNat : Int)) := by
  have hport := ns.upPort.toNat_lt
  have htext : cText (storageText ns (some sip)) = sip ++ 58 :: decimal ns.upPort.toNat := by
    have heq : storageText ns (some sip) = sip ++ 58 :: decimal ns.upPort.toNat := by
      simp [storageText, show ascii ":" = [58] from rfl]
    have h0 : 0 ∉ sip ++ 58 :: decimal ns.upPort.toNat := by
      simpa [nul_decimal] using fun hc => (h 0 hc).1 rfl
    rw [heq]
    exact takeWhile_eq_self_iff.mpr (bne_of_notMem h0)
  have hskip : 58 ∉ sip := fun hc => (h 58 hc).2 rfl
  unfold parseAddr
  simp only [htext]
  rw [if_pos (by simp), takeWhile_ne_append_cons hskip, dropWhile_ne_append_cons hskip]
  simp [atoi_decimal (show ns.upPort.toNat < 2 ^ 31 by omega)]

theorem mem_of_parseAddr {text : List UInt8} (h : parseAddr text = some a) : 58 ∈ text := by
  unfold parseAddr at h
  simp only at h
  split at h
  · rename_i hmem
    exact (takeWhile_sublist _).subset hmem
  · cases h

end Address

/-! ## 8. Runs of a thread -/

/-- An address that is named for the entry at some time. -/
def Offered (t : NsTables) (e : Entry) (a : Addr) : Prop :=
  ∃ t', Reach (nsStep ns) t t' ∧ ∃ sip,
    entrySip ns ip t' e = some sip ∧ parseAddr (storageText ns (some sip)) = some a

/-- The operation asks for the entry `e`, which is there, or its name has no colon (an error text
    with a colon would be read as an address). -/
def AsksFor (e : Entry) (s : ClientSt) : ClientAct → Prop
  | .operate api _ =>
    entryOf ns ip (queryHead api) api.group s.tables = e ∧ (e ≠ .unknown ∨ 58 ∉ api.group)
  | .other _ _ _ => True

instance (e : Entry) (s : ClientSt) : (a : ClientAct) → Decidable (AsksFor ns ip e s a)
  | .operate api _ => inferInstanceAs (Decidable (
      entryOf ns ip (queryHead api) api.group s.tables = e ∧ (e ≠ .unknown ∨ 58 ∉ api.group)))
  | .other _ _ _ => isTrue trivial

/-- What holds while all operations ask for `e`: the tables have only been rotated, and what is kept
    and every address sent to was named for `e`. -/
structure CacheInv (t : NsTables) (e : Entry) (s : ClientSt) : Prop where
  tables : Reach (nsStep ns) t s.tables
  kept : 0 < s.cache.port → Offered ns ip t e (s.cache.ip, s.cache.port)
  sent : ∀ x ∈ s.sent, entryOf ns ip (queryHead x.1) x.1.group t = e ∧ Offered ns ip t e x.2

section Runs

variable {ns : NsConfig} {ip : UInt32} {t : NsTables} {e : Entry} {s s' : ClientSt} {a : Addr}

variable {api : Api}

theorem couldReturn_of_offered
    (he : entryOf ns ip (queryHead api) api.group t = e) (h : Offered ns ip t e a) :
    CouldReturn ns ip t api a := by
  obtain ⟨t', ht, sip, hsip, ha⟩ := h
  refine ⟨t', ht, sip, ?_, ha⟩
  have hentry := (entryOf_reset (queryHead api) api.group (reset_of_reach ht)).trans he
  have hanswer := @nsAnswer_entry ns ip (queryHead api) api.group t'
  rw [hentry] at hanswer
  obtain ⟨-, htext⟩ | ⟨hunknown, -⟩ := hanswer
  · rw [htext, hsip]
  · rw [hunknown] at hsip
    cases hsip

theorem offered_of_answer {t' : NsTables} (ht : Reach (nsStep ns) t t')
    (he : entryOf ns ip (queryHead api) api.group t' = e) (hc : e ≠ .unknown ∨ 58 ∉ api.group)
    (ha : parseAddr (nsAnswer ns ip (queryHead api) api.group t').1 = some a) :
    Offered ns ip t e a := by
  have hanswer := @nsAnswer_entry ns ip (queryHead api) api.group t'
  rw [he] at hanswer
  obtain ⟨-, htext⟩ | ⟨hunknown, htext⟩ := hanswer
  · rw [htext] at ha
    cases hsip : entrySip ns ip t' e with
    | none =>
      rw [hsip, parseAddr_none_storage] at ha
      cases ha
    | some sip =>
      rw [hsip] at ha
      exact ⟨t', ht, sip, hsip, ha⟩
  · have hname := htext 58 (mem_of_parseAddr ha) rfl
    exact absurd ((takeWhile_sublist _).subset hname)
      (hc.resolve_left (not_not.mpr hunknown))

theorem offered_length (hsip : ∀ p ∈ ns.proxies, p.2.length ≤ 15) (h : Offered ns ip t e a) :
    a.1.length ≤ 15 := by
  obtain ⟨t', -, sip, hs, ha⟩ := h
  exact (parseAddr_length ha).trans (entrySip_length hsip hs)

theorem cached_eq_some {env : OpEnv} (h : cached s env = some a) :
    0 < s.cache.port ∧ a = (s.cache.ip, s.cache.port) := by
  unfold cached at h
  split at h
  · rename_i hon
    split at h
    · cases h
      exact ⟨hon.2, rfl⟩
    · cases h
  · cases h

theorem createReqMsg_query (file : LocalStat) (api : Api) :
    ∃ cmdid status, createReqMsg .getStorage file api = some (.query cmdid status api.group) ∧
      queryHead api = ⟨api.group.length, cmdid, status⟩ := by
  unfold createReqMsg queryHead
  by_cases h : api.type = TASK_ADDFILE
  · exact ⟨_, _, if_pos h, if_pos h⟩
  · exact ⟨_, _, if_neg h, if_neg h⟩

/-- **What an operation does**: nothing, sending to the kept address, asking the nameserver, or
    asking it and sending to the address in the answer, which is kept if none is. -/
theorem uploadFileInter_cases (api : Api) (env : OpEnv) (s : ClientSt) :
    let r := nsAnswer ns ip (queryHead api) api.group s.tables
    (uploadFileInter ns ip api env s).2 = s ∨
    (∃ a, cached s env = some a ∧
      (uploadFileInter ns ip api env s).2 = { s with sent := s.sent ++ [(api, a)] }) ∨
    (uploadFileInter ns ip api env s).2 = { s with tables := r.2 } ∨
    ∃ a, parseAddr r.1 = some a ∧
      (uploadFileInter ns ip api env s).2 =
        { s with
          tables := r.2
          cache := if s.flag ∧ s.cache.port = 0 then ⟨a.1.take 15, a.2, -1⟩ else s.cache
          sent := s.sent ++ [(api, a)] } := by
  obtain ⟨cmdid, status, hq, hhead⟩ := createReqMsg_query env.file api
  simp only [hhead]
  unfold uploadFileInter
  cases hcached : cached s env with
  | some a =>
    cases createReqMsg .putData env.file api with
    | none => exact .inl rfl
    | some req => exact .inr (.inl ⟨a, rfl, rfl⟩)
  | none =>
    simp only [hq]
    split
    · split
      · cases createReqMsg .putData env.file api with
        | none => exact .inr (.inr (.inl rfl))
        | some req =>
          unfold connectStorage
          cases hp : parseAddr
              (nsAnswer ns ip ⟨api.group.length, cmdid, status⟩ api.group s.tables).1 with
          | none => exact .inr (.inr (.inl rfl))
          | some a =>
            cases env.storageUp with
            | false => exact .inr (.inr (.inl rfl))
            | true => exact .inr (.inr (.inr ⟨a, rfl, rfl⟩))
      · exact .inl rfl
    · exact .inl rfl

theorem operatePfs_cases (api : Api) (env : OpEnv) (s : ClientSt) :
    (operatePfs ns ip api env s).2 = s ∨
      (operatePfs ns ip api env s).2 = (uploadFileInter ns ip api env s).2 := by
  unfold operatePfs
  split
  · exact .inl rfl
  split
  · split
    · exact .inl rfl
    · exact .inr rfl
  · split
    · exact .inl rfl
    · exact .inr rfl

theorem reach_nsAnswer {t' : NsTables} (h : Reach (nsStep ns) t t') (ip : UInt32) (hd : SigHead)
    (b : List UInt8) : Reach (nsStep ns) t (nsAnswer ns ip hd b t').2 :=
  .next (a := (ip, hd, b)) h trivial rfl

theorem CacheInv.sent_append (hi : CacheInv ns ip t e s)
    (he : entryOf ns ip (queryHead api) api.group s.tables = e) (ha : Offered ns ip t e a) :
    ∀ x ∈ s.sent ++ [(api, a)],
      entryOf ns ip (queryHead x.1) x.1.group t = e ∧ Offered ns ip t e x.2 := by
  intro x hx
  obtain hx | hx := mem_append.mp hx
  · exact hi.sent x hx
  · rw [mem_singleton.mp hx]
    exact ⟨(entryOf_reset _ _ (reset_of_reach hi.tables)).symm.trans he, ha⟩

theorem cacheInv_upload (hsip : ∀ p ∈ ns.proxies, p.2.length ≤ 15) {env : OpEnv}
    (hi : CacheInv ns ip t e s) (he : entryOf ns ip (queryHead api) api.group s.tables = e)
    (hc : e ≠ .unknown ∨ 58 ∉ api.group) :
    CacheInv ns ip t e (uploadFileInter ns ip api env s).2 := by
  obtain h | ⟨a, ha, h⟩ | h | ⟨a, ha, h⟩ := @uploadFileInter_cases ns ip api env s
  · rw [h]
    exact hi
  · obtain ⟨hport, rfl⟩ := cached_eq_some ha
    rw [h]
    exact ⟨hi.tables, hi.kept, hi.sent_append he (hi.kept hport)⟩
  · rw [h]
    exact ⟨reach_nsAnswer hi.tables _ _ _, hi.kept, hi.sent⟩
  · have hoff := offered_of_answer hi.tables he hc ha
    rw [h]
    refine ⟨reach_nsAnswer hi.tables _ _ _, ?_, hi.sent_append he hoff⟩
    simp only
    split
    · intro _
      -- the address fits the cache's field, so what is kept is what was read
      rw [take_of_length_le (offered_length hsip hoff)]
      exact hoff
    · exact hi.kept

theorem cacheInv_step (hsip : ∀ p ∈ ns.proxies, p.2.length ≤ 15) {act : ClientAct}
    (hi : CacheInv ns ip t e s) (hok : AsksFor ns ip e s act)
    (hs : clientStep ns ip s act = some s') : CacheInv ns ip t e s' := by
  cases act with
  | operate api env =>
    cases hs
    obtain h | h := @operatePfs_cases ns ip api env s
    · rw [h]
      exact hi
    · rw [h]
      exact cacheInv_upload hsip hi hok.1 hok.2
  | other ip' hd b =>
    cases hs
    exact ⟨reach_nsAnswer hi.tables _ _ _, hi.kept, hi.sent⟩

theorem cacheInv_init : CacheInv ns ip t e (initNsCache t) :=
  ⟨.start, fun h => absurd h (Int.lt_irrefl 0), fun _ h => by cases h⟩

/-- **In every run of a thread whose operations all ask for one entry of the tables, each operation
    is sent to a storage that the nameserver could have returned for its own group or domain.** -/
theorem sent_couldReturn (hsip : ∀ p ∈ ns.proxies, p.2.length ≤ 15)
    (h : Run (clientStep ns ip) (AsksFor ns ip e) (initNsCache t) s) :
    ∀ x ∈ s.sent, CouldReturn ns ip t x.1 x.2 := by
  have hi : CacheInv ns ip t e s :=
    h.inv cacheInv_init fun _ _ _ hi hok hs => cacheInv_step hsip hi hok hs
  intro x hx
  obtain ⟨he, ha⟩ := hi.sent x hx
  exact couldReturn_of_offered he ha

theorem entrySip_domain {name sip : List UInt8} (h : entrySip ns ip t (.domain name) = some sip) :
    ∃ d ∈ t.domains, d.domain = name ∧ ∃ p ∈ d.ips, p.2 = sip := by
  obtain ⟨r, hr, hsip⟩ := Option.bind_eq_some_iff.mp h
  obtain ⟨x, hx, he⟩ := Option.map_eq_some_iff.mp hr
  cases he
  obtain ⟨as, d, cs, hd, -, hname, rfl⟩ := updateFirst_split hx
  obtain ⟨p, hp, rfl⟩ := getValidIp4Up_mem hsip
  exact ⟨d, by simp [hd], by simpa using hname, p, hp, rfl⟩

/-- **What could have been returned for a domain is the address of one of its own storages.** -/
theorem couldReturn_domain {name : List UInt8}
    (he : entryOf ns ip (queryHead api) api.group t = .domain name)
    (hips : ∀ d ∈ t.domains, ∀ p ∈ d.ips, ∀ c ∈ p.2, c ≠ 0 ∧ c ≠ 58)
    (h : CouldReturn ns ip t api a) :
    ∃ d ∈ t.domains, d.domain = name ∧ ∃ p ∈ d.ips, a = (p.2, (ns.upPort.toNat : Int)) := by
  obtain ⟨t', ht, sip', htext, ha⟩ := h
  have hreset := reset_of_reach ht
  have hanswer := @nsAnswer_entry ns ip (queryHead api) api.group t'
  rw [entryOf_reset _ _ hreset, he] at hanswer
  obtain ⟨-, hstorage⟩ | ⟨hunknown, -⟩ := hanswer
  · rw [← htext, hstorage] at ha
    cases hsip : entrySip ns ip t' (.domain name) with
    | none =>
      rw [hsip, parseAddr_none_storage] at ha
      cases ha
    | some sip =>
      obtain ⟨d', hd', hname, p, hp, rfl⟩ := entrySip_domain hsip
      -- the rotated tables have the domains of `t`
      have hmem : d'.reset ∈ t.domains.map Domain.reset := by
        have hdom : t'.domains.map Domain.reset = t.domains.map Domain.reset :=
          congrArg NsTables.domains hreset
        rw [← hdom]
        exact mem_map_of_mem hd'
      obtain ⟨d, hd, hdd⟩ := mem_map.mp hmem
      have hdips : d.ips = d'.ips := (Domain.mk.inj hdd).2.1
      have hdname : d.domain = d'.domain := (Domain.mk.inj hdd).1
      have hp' : p ∈ d.ips := hdips ▸ hp
      rw [hsip, parseAddr_storage (hips d hd p hp')] at ha
      exact ⟨d, hd, hdname.trans hname, p, hp', (Option.some.inj ha).symm⟩
  · cases hunknown

end Runs

/-! ## 9. Two domains -/

/-- The domains `a` and `b` with a storage each. -/
def twoDomains : NsTables where
  groups := []
  domains :=
    [⟨ascii "a", [(1, ascii "1.1.1.1")], 0, by decide⟩,
      ⟨ascii "b", [(2, ascii "2.2.2.2")], 0, by decide⟩]
  online := fun _ => true

def deleteIn (domain : List UInt8) : Api :=
  ⟨[], ascii "/x", domain, TASK_DELFILE, ADD_PATH_BY_UPLOAD, 0⟩

def allUp : OpEnv := ⟨true, true, true, true, ⟨none, false⟩⟩

/-- Two deletes in `a`; the second goes over the cache. -/
theorem sent_couldReturn_same_domain :
    ∃ s, Run (clientStep emptyNs 1) (AsksFor emptyNs 1 (.domain (ascii "a")))
        (initNsCache twoDomains) s ∧
      s.sent = [(deleteIn (ascii "a"), (ascii "1.1.1.1", 59090)),
        (deleteIn (ascii "a"), (ascii "1.1.1.1", 59090))] ∧
      ∀ x ∈ s.sent, CouldReturn emptyNs 1 twoDomains x.1 x.2 := by
  have hrun := @run_of_exec _ _ (clientStep emptyNs 1) (AsksFor emptyNs 1 (.domain (ascii "a")))
    (initNsCache twoDomains) (initNsCache twoDomains) _
    [.operate (deleteIn (ascii "a")) allUp, .operate (deleteIn (ascii "a")) allUp] .start
    (by decide +kernel) rfl
  exact ⟨_, hrun, by decide +kernel, sent_couldReturn (fun p hp => by cases hp) hrun⟩

/-- A delete in `a` and one in `b`: the second goes to the storage of `a`, which the nameserver
    never returns for `b`. -/
theorem cache_wrong_domain :
    ∃ s, Reach (clientStep emptyNs 1) (initNsCache twoDomains) s ∧
      (deleteIn (ascii "b"), (ascii "1.1.1.1", 59090)) ∈ s.sent ∧
      ¬ CouldReturn emptyNs 1 twoDomains (deleteIn (ascii "b")) (ascii "1.1.1.1", 59090) := by
  have hrun := @reach_of_exec _ _ (clientStep emptyNs 1) (initNsCache twoDomains)
    (initNsCache twoDomains) _
    [.operate (deleteIn (ascii "a")) allUp, .operate (deleteIn (ascii "b")) allUp] .start rfl
  refine ⟨_, hrun, by decide +kernel, fun h => ?_⟩
  obtain ⟨d, hd, hname, p, hp, ha⟩ := couldReturn_domain
    (show entryOf emptyNs 1 (queryHead (deleteIn (ascii "b"))) (deleteIn (ascii "b")).group
      twoDomains = .domain (ascii "b") by decide +kernel) (by decide +kernel) h
  revert d p
  decide +kernel

end Client

end Pfs
