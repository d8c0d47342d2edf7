/-
  Groups, domains and the table of addresses (network/pfs_init.c, lib/util_ip.c).

  A reload reads every group's file again. For each group it first destroys what the group had, then
  links the new domains one by one, and for each the addresses one by one; it stops where something
  fails, and leaves what it has built.

  Domains are numbered by the allocation that made them; a number is never used twice, so that an
  entry of the table that refers to a freed domain can be told from one that refers to a live one.
  Which allocations succeed is the argument `mem`.

  Main result: `readLines_rule`.
-/
import Pfs.Lib.Buckets
import Pfs.Nameserver

namespace Pfs

open Lib

/-! ## 1. Texts -/

def INADDR_NONE : UInt32 := 0xFFFFFFFF

/-- `htonl` on the little-endian machines this runs on. -/
def htonl (x : UInt32) : UInt32 :=
  let mask : UInt32 := 0xFF00
  (x <<< (24 : UInt32)) ||| ((x &&& mask) <<< (8 : UInt32)) ||| ((x >>> (8 : UInt32)) &&& mask) |||
    (x >>> (24 : UInt32))

/-- The value of a digit, in bases up to 36. -/
def digitValue (c : UInt8) : Nat :=
  if isDigit c then c.toNat - 48
  else if 97 ≤ c ∧ c ≤ 122 then c.toNat - 87
  else if 65 ≤ c ∧ c ≤ 90 then c.toNat - 55
  else 36

/-- The digits in front of a text, and what comes after them. -/
def digits (base : Nat) : List UInt8 → Nat → Nat × List UInt8
  | [], acc => (acc, [])
  | c :: cs, acc =>
    if digitValue c < base then digits base cs (acc * base + digitValue c) else (acc, c :: cs)

/-- `strtoul` with the base 0, of a text that begins with a digit, as it is stored in 32 bits. -/
def strtoul (s : List UInt8) : UInt32 × List UInt8 :=
  let r := match s with
    | 48 :: x :: h :: cs =>
      if (x = 120 ∨ x = 88) ∧ digitValue h < 16 then digits 16 (h :: cs) 0 else digits 8 s 0
    | 48 :: _ => digits 8 s 0
    | _ => digits 10 s 0
  (UInt32.ofNat (min r.1 (2 ^ 64 - 1)), r.2)

def dotDigit (s : List UInt8) : Bool := isDigit ((s.drop 1).headD 0)

/-- `str2ip` -/
def str2ip (s : List UInt8) : UInt32 :=
  if isDigit (s.headD 0) = false then INADDR_NONE
  else
    let (a, s) := strtoul s
    if s.headD 0 ≠ 46 then
      let temp := a >>> (24 : UInt32)
      if temp = 0 ∨ 224 ≤ temp then INADDR_NONE else htonl a
    else if dotDigit s = false ∨ a = 0 ∨ 224 ≤ a then INADDR_NONE
    else
      let (b, s) := strtoul (s.drop 1)
      if s.headD 0 ≠ 46 then if 0x1000000 ≤ b then INADDR_NONE else a + htonl b
      else if dotDigit s = false ∨ 256 ≤ b then INADDR_NONE
      else
        let (c, s) := strtoul (s.drop 1)
        if s.headD 0 ≠ 46 then if 0x10000 ≤ c then INADDR_NONE else a + (b <<< (8 : UInt32)) +
          htonl c
        else if dotDigit s = false then INADDR_NONE
        else
          let (d, _) := strtoul (s.drop 1)
          if 256 ≤ d then INADDR_NONE
          else a + (b <<< (8 : UInt32)) + (c <<< (16 : UInt32)) + (d <<< (24 : UInt32))

example : str2ip [49, 48, 46, 50, 46, 51, 46, 52] = 0x0403020A := by decide +kernel

/-- The lines that `fgets` gives with a buffer of 2048 bytes; `acc` is the line read so far. -/
def fgetsLines : List UInt8 → List UInt8 → List (List UInt8)
  | [], acc => if acc = [] then [] else [acc.reverse]
  | c :: cs, acc =>
    if c = 10 ∨ acc.length = 2046 then (c :: acc).reverse :: fgetsLines cs []
    else fgetsLines cs (c :: acc)

/-- A line of a group's file: the domain's name and its addresses; `none` without a colon. A line
    has at most one newline, at its end. -/
def splitLine (line : List UInt8) : Option (List UInt8 × List (List UInt8)) :=
  let buf := (cText line).takeWhile (· != 10)
  if 58 ∈ buf then
    some (buf.takeWhile (· != 58), ((buf.dropWhile (· != 58)).drop 1).splitOn 44)
  else none

/-! ## 2. The three structures -/

def MAX_IP_DOMAIN : Nat := 64

/-- `enum ROLE` -/
inductive Role where
  | unknown
  | storage
  | nameserver
  | possMaster
  | self
  | client
  deriving DecidableEq

/-- `t_pfs_domain`: its name and its addresses with their texts. -/
structure DomRec where
  name : List UInt8
  ips : List (UInt32 × List UInt8)
  ips_le : ips.length ≤ MAX_IP_DOMAIN

def DomRec.named (name : List UInt8) : DomRec := ⟨name.take 127, [], Nat.zero_le _⟩

/-- One more address; the text is cut to the 15 characters of a `sips` entry. -/
def DomRec.add (d : DomRec) (s : List UInt8) (h : d.ips.length < MAX_IP_DOMAIN) : DomRec where
  name := d.name
  ips := d.ips ++ [(str2ip s, s.take 15)]
  ips_le := by simpa using Nat.succ_le_of_lt h

def DomRec.addrs (d : DomRec) : List UInt32 := d.ips.map Prod.fst

/-- `t_ip_info`; `ptr` is the domain of a storage. -/
structure IpInfo where
  role : Role
  sip : List UInt8
  uip : UInt32
  ptr : Option Nat
  deriving DecidableEq

def IPMODE : UInt32 := 0x1F

def ipBucket (uip : UInt32) : Fin 32 := Fin.ofNat 32 (uip &&& IPMODE).toNat

/-- The topology: `grouplist` with every group's `g_dlist`, `alldomain` and `allip`, all newest
    first; `dom` is what the allocated domains hold, `next` counts the allocations. -/
structure Topo where
  groups : List (List UInt8 × List Nat)
  alldomain : List Nat
  dom : Nat → DomRec
  allip : Fin 32 → List IpInfo
  next : Nat

def Topo.chain (t : Topo) (u : UInt32) : List IpInfo := Buckets.chain IpInfo.uip ipBucket t.allip u

def Topo.domainsOf (t : Topo) (name : List UInt8) : List Nat :=
  (t.groups.filter fun g => decide (g.1 = name)).flatMap Prod.snd

/-! ## 3. A reload -/

/-- `del_ip_from_pfs` -/
def delIpFromPfs (allip : Fin 32 → List IpInfo) (uip : UInt32) : Fin 32 → List IpInfo :=
  Buckets.remove IpInfo.uip ipBucket allip uip

/-- The inner loop of `destroy_old_group`, with `destroy_storage_ip`. -/
def destroyDomain (t : Topo) (d : Nat) : Topo :=
  { t with
    alldomain := t.alldomain.erase d
    allip := (t.dom d).addrs.foldl delIpFromPfs t.allip }

/-- `destroy_old_group` -/
def destroyOldGroup (t : Topo) (name : List UInt8) : Topo :=
  (t.domainsOf name).foldl destroyDomain
    { t with groups := t.groups.filter fun g => !decide (g.1 = name) }

section Reload

variable (mem : Nat → Bool)

/-- An allocation that is not used, or that fails. -/
def Topo.tick (t : Topo) : Topo := { t with next := t.next + 1 }

/-- `add_ip_2_pfs`: whether it returns 0. -/
def addIp2Pfs (t : Topo) (sip : List UInt8) (uip : UInt32) (role : Role) (ptr : Option Nat) :
    Bool × Topo :=
  if mem t.next = false then (false, t.tick)
  else
    (true, { t.tick with
      allip := Buckets.insert IpInfo.uip ipBucket t.allip ⟨role, sip.take 15, uip, ptr⟩ })

/-- `add_storage_to_domain` -/
def addStorageToDomain (t : Topo) (ip : List UInt8) (g : Nat) : Bool × Topo :=
  if h : (t.dom g).ips.length < MAX_IP_DOMAIN then
    let r := addIp2Pfs mem t ip (str2ip ip) .storage (some g)
    if r.1 = false then (false, r.2)
    else (true, { r.2 with dom := Function.update t.dom g ((t.dom g).add ip h) })
  else (false, t)

/-- The loop over the addresses of a line. -/
def addAddresses (d : Nat) : List (List UInt8) → Topo → Bool × Topo
  | [], t => (true, t)
  | ip :: ips, t =>
    let r := addStorageToDomain mem t ip d
    if r.1 = false then r else addAddresses d ips r.2

/-- `list_add` to the `g_dlist` of the group that was linked last. -/
def linkFirst (d : Nat) : List (List UInt8 × List Nat) → List (List UInt8 × List Nat)
  | [] => []
  | g :: gs => (g.1, d :: g.2) :: gs

def Topo.link (t : Topo) (name : List UInt8) : Topo :=
  { t with
    next := t.next + 1
    dom := Function.update t.dom t.next (.named name)
    alldomain := t.next :: t.alldomain
    groups := linkFirst t.next t.groups }

/-- The loop of `init_group` over the lines of the file. -/
def readLines : List (List UInt8) → Topo → Bool × Topo
  | [], t => (true, t)
  | line :: lines, t =>
    match splitLine line with
    | none => (false, t)
    | some (name, ips) =>
      if mem t.next = false then (false, t.tick)
      else
        let r := addAddresses mem t.next ips (t.link name)
        if r.1 = false then r else readLines lines r.2

/-- A group of the configuration: its name, as 128 bytes hold it, and the file that its iplist entry
    names. The first `none` is that there is no such entry, the second that the file cannot be
    opened. -/
structure GroupCfg where
  name : List UInt8
  iplist : Option (Option (List UInt8))

/-- `init_group` -/
def initGroup (t : Topo) (c : GroupCfg) : Bool × Topo :=
  let t := destroyOldGroup t c.name
  match c.iplist with
  | none => (false, t)
  | some file =>
    let t := { t with groups := (c.name, []) :: t.groups }
    match file with
    | none => (false, t)
    | some content => readLines mem (fgetsLines content []) t

inductive ReloadEnd where
  | done
  | noLock
  /-- The allocation of a group failed. -/
  | noMemory
  /-- `init_group` failed for this group. -/
  | failed (c : GroupCfg)

/-- The loop of `init_storage`. -/
def initGroups : List GroupCfg → Topo → ReloadEnd × Topo
  | [], t => (.done, t)
  | c :: cs, t =>
    if mem t.next = false then (.noMemory, t.tick)
    else
      let r := initGroup mem t.tick c
      if r.1 = false then (.failed c, r.2) else initGroups cs r.2

/-- `init_storage`; `lock` is whether it gets the configuration's lock. -/
def initStorage (lock : Bool) (cfgs : List GroupCfg) (t : Topo) : ReloadEnd × Topo :=
  if lock = false then (.noLock, t) else initGroups mem cfgs t

end Reload

/-- The topology before the first reload: the nameservers and the POSS master are in the table. -/
def Topo.boot (nameservers : List (List UInt8 × UInt32)) (poss : List UInt8) : Topo where
  groups := []
  alldomain := []
  dom := fun _ => .named []
  allip := Buckets.insert IpInfo.uip ipBucket
    (nameservers.foldl (fun b n => Buckets.insert IpInfo.uip ipBucket b
      ⟨.nameserver, n.1.take 15, n.2, none⟩) fun _ => [])
    ⟨.possMaster, poss.take 15, str2ip poss, none⟩
  next := 0

/-! ## 4. Step by step -/

/-- One more address of the domain `d`, in the domain and in the table. -/
def Topo.addAddress (t : Topo) (d : Nat) (ip : List UInt8)
    (h : (t.dom d).ips.length < MAX_IP_DOMAIN) : Topo :=
  { t with
    next := t.next + 1
    allip := Buckets.insert IpInfo.uip ipBucket t.allip ⟨.storage, ip.take 15, str2ip ip, some d⟩
    dom := Function.update t.dom d ((t.dom d).add ip h) }

/-- The addresses of some lines, those without a colon left out. -/
def lineAddrs (lines : List (List UInt8)) : List UInt32 :=
  lines.flatMap fun line => ((splitLine line).map fun x => x.2.map str2ip).getD []

def GroupCfg.addrs (c : GroupCfg) : List UInt32 :=
  match c.iplist with
  | some (some content) => lineAddrs (fgetsLines content [])
  | _ => []

/-- The domain `d` was linked last, in both of its lists. -/
def Topo.Newest (t : Topo) (d : Nat) : Prop :=
  t.alldomain.head? = some d ∧ ∃ name ds gs, t.groups = (name, d :: ds) :: gs

/-- `P t rest` is kept by every step of reading a file of which the addresses `rest` remain. -/
structure KeptByReading (P : Topo → List UInt32 → Prop) : Prop where
  skip : ∀ {t u rest}, P t (u :: rest) → P t rest
  tick : ∀ {t rest}, P t rest → P t.tick rest
  link : ∀ {t rest} name, t.groups ≠ [] → P t rest → P (t.link name) rest
  add : ∀ {t rest d ip} (h : (t.dom d).ips.length < MAX_IP_DOMAIN), t.Newest d →
    P t (str2ip ip :: rest) → P (t.addAddress d ip h) rest

section Rule

variable {mem : Nat → Bool} {t : Topo}

theorem addStorageToDomain_cases (t : Topo) (ip : List UInt8) (d : Nat) :
    (∃ h, addStorageToDomain mem t ip d = (true, t.addAddress d ip h)) ∨
      addStorageToDomain mem t ip d = (false, t.tick) ∨
      addStorageToDomain mem t ip d = (false, t) := by
  unfold addStorageToDomain addIp2Pfs
  by_cases h : (t.dom d).ips.length < MAX_IP_DOMAIN
  · rw [dif_pos h]
    cases hm : mem t.next with
    | false => exact .inr (.inl rfl)
    | true => exact .inl ⟨h, rfl⟩
  · rw [dif_neg h]
    exact .inr (.inr rfl)

theorem KeptByReading.skips {P : Topo → List UInt32 → Prop} (K : KeptByReading P)
    {us rest : List UInt32} (h : P t (us ++ rest)) : P t rest := by
  induction us with
  | nil => exact h
  | cons u us ih => exact ih (K.skip h)

theorem Newest_addAddress {d : Nat} {ip : List UInt8} (h : (t.dom d).ips.length < MAX_IP_DOMAIN)
    (hd : t.Newest d) : (t.addAddress d ip h).Newest d := hd

theorem Newest_link (name : List UInt8) (hg : t.groups ≠ []) : (t.link name).Newest t.next := by
  obtain ⟨g, gs, hgs⟩ := List.exists_cons_of_ne_nil hg
  exact ⟨rfl, g.1, g.2, gs, by simp only [Topo.link, hgs, linkFirst]⟩

theorem addAddresses_rule {P : Topo → List UInt32 → Prop} (K : KeptByReading P) {d : Nat}
    {ips : List (List UInt8)} {rest : List UInt32} (hd : t.Newest d)
    (h : P t (ips.map str2ip ++ rest)) :
    P (addAddresses mem d ips t).2 rest ∧ (addAddresses mem d ips t).2.Newest d := by
  induction ips generalizing t with
  | nil => exact ⟨h, hd⟩
  | cons ip ips ih =>
    have hskip : P t (ips.map str2ip ++ rest) := K.skip h
    obtain ⟨hlt, hr⟩ | hr | hr := @addStorageToDomain_cases mem t ip d
    · simp only [addAddresses, hr, Bool.true_eq_false, if_false]
      exact ih (Newest_addAddress hlt hd) (K.add hlt hd h)
    · simp only [addAddresses, hr, if_true]
      exact ⟨K.tick (K.skips hskip), hd⟩
    · simp only [addAddresses, hr, if_true]
      exact ⟨K.skips hskip, hd⟩

theorem Newest.groups_ne_nil {d : Nat} (hd : t.Newest d) : t.groups ≠ [] := by
  obtain ⟨-, name, ds, gs, hgs⟩ := hd
  rw [hgs]
  exact List.cons_ne_nil _ _

/-- **What every step keeps, a group's file keeps**, wherever reading it stops. -/
theorem readLines_rule {P : Topo → List UInt32 → Prop} (K : KeptByReading P)
    {lines : List (List UInt8)} {rest : List UInt32} (hg : t.groups ≠ [])
    (h : P t (lineAddrs lines ++ rest)) : P (readLines mem lines t).2 rest := by
  induction lines generalizing t with
  | nil => exact h
  | cons line lines ih =>
    unfold readLines
    cases hl : splitLine line with
    | none => exact K.skips h
    | some x =>
      have haddrs : lineAddrs (line :: lines) ++ rest =
          x.2.map str2ip ++ (lineAddrs lines ++ rest) := by
        simp [lineAddrs, hl]
      rw [haddrs] at h
      simp only
      by_cases hm : mem t.next = false
      · rw [if_pos hm]
        exact K.tick (K.skips (K.skips h))
      rw [if_neg hm]
      obtain ⟨hP, hnew⟩ := @addAddresses_rule mem _ P K t.next x.2 _ (Newest_link x.1 hg)
        (K.link x.1 hg h)
      split
      · exact K.skips hP
      · exact ih (Newest.groups_ne_nil hnew) hP

end Rule

end Pfs
