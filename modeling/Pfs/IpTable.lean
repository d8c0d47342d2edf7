/-
  The table of addresses over any sequence of reloads (network/pfs_init.c).

  An entry is made for every address of every domain, but it is deleted by its address alone: the
  first entry of the chain goes, whatever domain it refers to. As long as every address has one
  domain, that is the right one.

  Main results: `table_of_run`, `shared_address_dangles`.
-/
import Pfs.Topology

namespace Pfs

open Lib List

def Topo.entries (t : Topo) : List IpInfo := (List.finRange 32).flatMap t.allip

/-- **What is asked of the table**: an entry of a storage refers to a live domain that lists the
    address, every address of a live domain has exactly one entry for that domain, and every entry
    is in its bucket. -/
structure Topo.TableOk (t : Topo) : Prop where
  live : ∀ e ∈ t.entries, e.role = .storage →
    ∃ d ∈ t.alldomain, e.ptr = some d ∧ e.uip ∈ (t.dom d).addrs
  once : ∀ d ∈ t.alldomain, ∀ u ∈ (t.dom d).addrs,
    (t.entries.filter fun e => decide (e.role = .storage ∧ e.ptr = some d ∧ e.uip = u)).length = 1
  placed : ∀ b, ∀ e ∈ t.allip b, ipBucket e.uip = b

/-! ## 1. The invariant -/

/-- The invariant; `pending` are the domains that are about to be destroyed, their group being
    unlinked already. -/
structure TableInv (t : Topo) (pending : List Nat) : Prop where
  placed : Buckets.Placed IpInfo.uip ipBucket t.allip
  lt : ∀ d ∈ t.alldomain, d < t.next
  nodup : t.alldomain.Nodup
  linked : (pending ++ t.groups.flatMap Prod.snd).Perm t.alldomain
  addrs_nodup : ∀ d ∈ t.alldomain, (t.dom d).addrs.Nodup
  listed : ∀ d ∈ t.alldomain, ∀ u ∈ (t.dom d).addrs, ∃ sip, t.chain u = [⟨.storage, sip, u, some d⟩]
  others : ∀ u, (∀ d ∈ t.alldomain, u ∉ (t.dom d).addrs) → ∀ e ∈ t.chain u, e.role ≠ .storage

section Invariant

variable {t : Topo} {pending : List Nat} {d : Nat}

variable {u : UInt32} {ip : List UInt8}

theorem TableInv.owner (hI : TableInv t pending) {e : IpInfo} (he : e ∈ t.chain u)
    (hrole : e.role = .storage) : ∃ d ∈ t.alldomain, e.ptr = some d ∧ u ∈ (t.dom d).addrs := by
  by_contra hnone
  by_cases hdead : ∀ d ∈ t.alldomain, u ∉ (t.dom d).addrs
  · exact hI.others u hdead e he hrole
  push Not at hdead
  obtain ⟨d, hd, hu⟩ := hdead
  obtain ⟨sip, hchain⟩ := hI.listed d hd u hu
  rw [hchain, mem_singleton] at he
  exact hnone ⟨d, hd, by rw [he], hu⟩

theorem TableInv.unique (hI : TableInv t pending) {d' : Nat} (hd : d ∈ t.alldomain)
    (hd' : d' ∈ t.alldomain) (hu : u ∈ (t.dom d).addrs) (hu' : u ∈ (t.dom d').addrs) : d = d' := by
  obtain ⟨sip, h⟩ := hI.listed d hd u hu
  obtain ⟨sip', h'⟩ := hI.listed d' hd' u hu'
  rw [h] at h'
  have he : sip = sip' ∧ d = d' := by simpa using h'
  exact he.2

theorem mem_entries {e : IpInfo} : e ∈ t.entries ↔ ∃ b, e ∈ t.allip b := by
  simp [Topo.entries]

theorem filter_entries (hp : Buckets.Placed IpInfo.uip ipBucket t.allip) (u : UInt32)
    (p : IpInfo → Bool) (h : ∀ e, p e = true → e.uip = u) :
    t.entries.filter p = (t.chain u).filter p := by
  have hbucket : ∀ b ≠ ipBucket u, (t.allip b).filter p = [] := by
    intro b hb
    refine filter_eq_nil_iff.mpr fun e he hpe => hb ?_
    rw [← hp b e he, h e hpe]
  have hown : (t.allip (ipBucket u)).filter p = (t.chain u).filter p := by
    unfold Topo.chain Buckets.chain
    rw [filter_filter]
    refine filter_congr fun e _ => ?_
    cases hpe : p e with
    | false => rfl
    | true => simp [h e hpe]
  have hflat : ∀ bs : List (Fin 32), bs.Nodup → (bs.flatMap t.allip).filter p =
      if ipBucket u ∈ bs then (t.chain u).filter p else [] := by
    intro bs hbs
    induction bs with
    | nil => rfl
    | cons b bs ih =>
      obtain ⟨hnot, hbs⟩ := nodup_cons.mp hbs
      rw [flatMap_cons, filter_append, ih hbs]
      by_cases hb : b = ipBucket u
      · subst hb
        rw [hown, if_neg hnot, if_pos mem_cons_self, append_nil]
      · rw [hbucket b hb, nil_append]
        simp [Ne.symm hb]
  rw [Topo.entries, hflat _ (nodup_finRange 32), if_pos (mem_finRange _)]

theorem TableInv.tableOk (hI : TableInv t pending) : t.TableOk where
  live := by
    intro e he hrole
    obtain ⟨b, he⟩ := mem_entries.mp he
    exact hI.owner (Buckets.mem_chain hI.placed he) hrole
  once := by
    intro d hd u hu
    obtain ⟨sip, hchain⟩ := hI.listed d hd u hu
    rw [filter_entries hI.placed u _ (fun e he => (of_decide_eq_true he).2.2), hchain]
    simp
  placed := hI.placed

/-! ## 2. Destroying a group -/

theorem chain_foldl_del (us : List UInt32) (b : Fin 32 → List IpInfo) (hus : us.Nodup)
    (u : UInt32) :
    Buckets.chain IpInfo.uip ipBucket (us.foldl delIpFromPfs b) u =
      if u ∈ us then (Buckets.chain IpInfo.uip ipBucket b u).tail
      else Buckets.chain IpInfo.uip ipBucket b u := by
  induction us generalizing b with
  | nil => rfl
  | cons v us ih =>
    obtain ⟨hnot, hus⟩ := nodup_cons.mp hus
    rw [foldl_cons, ih _ hus]
    unfold delIpFromPfs
    rw [Buckets.chain_remove]
    by_cases hv : v = u
    · subst hv
      rw [if_neg hnot, if_pos rfl, if_pos mem_cons_self]
    · rw [if_neg hv]
      simp [Ne.symm hv]

theorem placed_foldl_del (us : List UInt32) {b : Fin 32 → List IpInfo}
    (hb : Buckets.Placed IpInfo.uip ipBucket b) :
    Buckets.Placed IpInfo.uip ipBucket (us.foldl delIpFromPfs b) := by
  induction us generalizing b with
  | nil => exact hb
  | cons v us ih => exact ih (Buckets.placed_remove hb v)

theorem TableInv.chain_destroy (hI : TableInv t pending) (hd : d ∈ t.alldomain) (u : UInt32) :
    (destroyDomain t d).chain u = if u ∈ (t.dom d).addrs then [] else t.chain u := by
  have hfold := chain_foldl_del (t.dom d).addrs t.allip (hI.addrs_nodup d hd) u
  unfold destroyDomain
  unfold Topo.chain
  rw [hfold]
  by_cases hu : u ∈ (t.dom d).addrs
  · obtain ⟨sip, hchain⟩ := hI.listed d hd u hu
    unfold Topo.chain at hchain
    rw [if_pos hu, if_pos hu, hchain, tail_cons]
  · rw [if_neg hu, if_neg hu]

theorem tableInv_destroyDomain (hI : TableInv t (d :: pending)) :
    TableInv (destroyDomain t d) pending := by
  have hd : d ∈ t.alldomain := hI.linked.subset (mem_append_left _ mem_cons_self)
  have hmem : ∀ d' ∈ t.alldomain.erase d, d' ∈ t.alldomain ∧ d' ≠ d := fun d' hd' =>
    ⟨mem_of_mem_erase hd', fun he => hI.nodup.not_mem_erase (he ▸ hd')⟩
  constructor
  case placed => exact placed_foldl_del _ hI.placed
  case lt => exact fun d' hd' => hI.lt d' (hmem d' hd').1
  case nodup => exact hI.nodup.erase d
  case linked =>
    have h := hI.linked.erase d
    rwa [cons_append, erase_cons_head] at h
  case addrs_nodup => exact fun d' hd' => hI.addrs_nodup d' (hmem d' hd').1
  case listed =>
    intro d' hd' u hu
    have hnot : u ∉ (t.dom d).addrs := fun hud =>
      (hmem d' hd').2 (hI.unique (hmem d' hd').1 hd hu hud)
    rw [hI.chain_destroy hd, if_neg hnot]
    exact hI.listed d' (hmem d' hd').1 u hu
  case others =>
    intro u hu e he
    rw [hI.chain_destroy hd] at he
    by_cases hud : u ∈ (t.dom d).addrs
    · rw [if_pos hud] at he
      cases he
    rw [if_neg hud] at he
    refine hI.others u (fun d' hd' => ?_) e he
    by_cases hdd : d' = d
    · rw [hdd]
      exact hud
    · exact hu d' ((mem_erase_of_ne hdd).mpr hd')

/-- A loop over the domains leaves the groups, what the domains hold and the count of allocations as
    they are, and adds no entry. -/
theorem foldl_destroyDomain (ds : List Nat) (t : Topo) :
    (ds.foldl destroyDomain t).groups = t.groups ∧ (ds.foldl destroyDomain t).dom = t.dom ∧
      (ds.foldl destroyDomain t).next = t.next ∧
      ∀ b, ((ds.foldl destroyDomain t).allip b).Sublist (t.allip b) := by
  induction ds generalizing t with
  | nil => exact ⟨rfl, rfl, rfl, fun b => List.Sublist.refl _⟩
  | cons d ds ih =>
    obtain ⟨hg, hdom, hn, hsub⟩ := ih (destroyDomain t d)
    refine ⟨hg, hdom, hn, fun b => (hsub b).trans ?_⟩
    have hdel : ∀ (us : List UInt32) (a : Fin 32 → List IpInfo),
        (us.foldl delIpFromPfs a b).Sublist (a b) := by
      intro us
      induction us with
      | nil => exact fun a => List.Sublist.refl _
      | cons u us ihu =>
        exact fun a => (ihu (delIpFromPfs a u)).trans (Buckets.remove_sublist a u b)
    exact hdel _ _

theorem tableInv_foldl_destroy (hI : TableInv t pending) :
    TableInv (pending.foldl destroyDomain t) [] := by
  induction pending generalizing t with
  | nil => exact hI
  | cons d pending ih => exact ih (tableInv_destroyDomain hI)

theorem tableInv_destroy (hI : TableInv t []) (name : List UInt8) :
    TableInv (destroyOldGroup t name) [] := by
  refine tableInv_foldl_destroy
    ⟨hI.placed, hI.lt, hI.nodup, ?_, hI.addrs_nodup, hI.listed, hI.others⟩
  have hperm := (filter_append_perm (fun g : List UInt8 × List Nat => decide (g.1 = name))
    t.groups).flatMap_right Prod.snd
  rw [flatMap_append] at hperm
  exact hperm.trans (by simpa using hI.linked)

/-! ## 3. Reading a group's file -/

/-- The invariant, and what is known of the addresses that are still to come. -/
def TableReading (t : Topo) (rest : List UInt32) : Prop :=
  TableInv t [] ∧ rest.Nodup ∧ ∀ u ∈ rest, t.chain u = []

theorem flatMap_linkFirst {d : Nat} {gs : List (List UInt8 × List Nat)} (hgs : gs ≠ []) :
    (linkFirst d gs).flatMap Prod.snd = d :: gs.flatMap Prod.snd := by
  obtain ⟨g, gs, rfl⟩ := exists_cons_of_ne_nil hgs
  rfl

theorem tableInv_link (hI : TableInv t []) (hg : t.groups ≠ []) (name : List UInt8) :
    TableInv (t.link name) [] := by
  have hne : ∀ d ∈ t.alldomain, d ≠ t.next := fun d hd => Nat.ne_of_lt (hI.lt d hd)
  have hold : ∀ d ∈ t.alldomain, (t.link name).dom d = t.dom d := fun d hd =>
    Function.update_of_ne (hne d hd) _ _
  have hnew : ((t.link name).dom t.next).addrs = [] := by
    simp [Topo.link, DomRec.named, DomRec.addrs]
  constructor
  case placed => exact hI.placed
  case lt =>
    intro d hd
    obtain rfl | hd := mem_cons.mp hd
    · exact Nat.lt_succ_self _
    · exact Nat.lt_succ_of_lt (hI.lt d hd)
  case nodup => exact nodup_cons.mpr ⟨fun h => hne _ h rfl, hI.nodup⟩
  case linked =>
    show (linkFirst t.next t.groups).flatMap Prod.snd |>.Perm (t.next :: t.alldomain)
    rw [flatMap_linkFirst hg]
    exact hI.linked.cons t.next
  case addrs_nodup =>
    intro d hd
    obtain rfl | hd := mem_cons.mp hd
    · rw [hnew]
      exact nodup_nil
    · rw [hold d hd]
      exact hI.addrs_nodup d hd
  case listed =>
    intro d hd u hu
    obtain rfl | hd := mem_cons.mp hd
    · rw [hnew] at hu
      cases hu
    · rw [hold d hd] at hu
      exact hI.listed d hd u hu
  case others =>
    intro u hu
    refine hI.others u fun d hd => ?_
    rw [← hold d hd]
    exact hu d (mem_cons_of_mem _ hd)

theorem chain_addAddress (h : (t.dom d).ips.length < MAX_IP_DOMAIN) (u : UInt32) :
    (t.addAddress d ip h).chain u = if str2ip ip = u
      then ⟨.storage, ip.take 15, str2ip ip, some d⟩ :: t.chain u else t.chain u :=
  Buckets.chain_insert t.allip _ u

theorem addrs_addAddress (h : (t.dom d).ips.length < MAX_IP_DOMAIN) (d' : Nat) :
    ((t.addAddress d ip h).dom d').addrs =
      if d' = d then (t.dom d).addrs ++ [str2ip ip] else (t.dom d').addrs := by
  unfold Topo.addAddress
  by_cases hd : d' = d
  · subst hd
    simp [DomRec.add, DomRec.addrs]
  · simp [hd]

theorem tableInv_addAddress (hI : TableInv t []) (hd : d ∈ t.alldomain)
    (h : (t.dom d).ips.length < MAX_IP_DOMAIN) (hfree : t.chain (str2ip ip) = []) :
    TableInv (t.addAddress d ip h) [] := by
  -- an address without an entry is listed nowhere
  have hnew : ∀ d' ∈ t.alldomain, str2ip ip ∉ (t.dom d').addrs := by
    intro d' hd' hu
    obtain ⟨sip, hchain⟩ := hI.listed d' hd' _ hu
    cases hfree.symm.trans hchain
  constructor
  case placed => exact Buckets.placed_insert hI.placed _
  case lt => exact fun d' hd' => Nat.lt_succ_of_lt (hI.lt d' hd')
  case nodup => exact hI.nodup
  case linked => exact hI.linked
  case addrs_nodup =>
    intro d' hd'
    rw [addrs_addAddress]
    by_cases hdd : d' = d
    · rw [if_pos hdd]
      refine nodup_append.mpr ⟨hI.addrs_nodup d hd, by simp, ?_⟩
      intro u hu v hv huv
      rw [mem_singleton.mp hv] at huv
      exact hnew d hd (huv ▸ hu)
    · rw [if_neg hdd]
      exact hI.addrs_nodup d' hd'
  case listed =>
    intro d' hd' u hu
    rw [addrs_addAddress] at hu
    rw [chain_addAddress]
    by_cases hu' : str2ip ip = u
    · subst hu'
      have hdd : d' = d := by
        by_contra hdd
        rw [if_neg hdd] at hu
        exact hnew d' hd' hu
      rw [if_pos rfl, hfree, hdd]
      exact ⟨_, rfl⟩
    · rw [if_neg hu']
      refine hI.listed d' hd' u ?_
      by_cases hdd : d' = d
      · rw [if_pos hdd, mem_append, mem_singleton] at hu
        rw [hdd]
        exact hu.resolve_right (Ne.symm hu')
      · rwa [if_neg hdd] at hu
  case others =>
    intro u hu e he
    rw [chain_addAddress] at he
    have hne : str2ip ip ≠ u := by
      intro hu'
      refine hu d hd ?_
      rw [addrs_addAddress, if_pos rfl]
      exact mem_append_right _ (by simp [hu'])
    rw [if_neg hne] at he
    refine hI.others u (fun d' hd' hud => hu d' hd' ?_) e he
    rw [addrs_addAddress]
    by_cases hdd : d' = d
    · rw [if_pos hdd, ← hdd]
      exact mem_append_left _ hud
    · rwa [if_neg hdd]

theorem tableInv_reading : KeptByReading TableReading where
  skip := fun h => ⟨h.1, (nodup_cons.mp h.2.1).2,
    fun u hu => h.2.2 u (mem_cons_of_mem _ hu)⟩
  tick := fun h => ⟨⟨h.1.placed, fun d hd => Nat.lt_succ_of_lt (h.1.lt d hd), h.1.nodup, h.1.linked,
    h.1.addrs_nodup, h.1.listed, h.1.others⟩, h.2⟩
  link := fun name hg h => ⟨tableInv_link h.1 hg name, h.2⟩
  add := by
    intro t rest d ip hlt hd h
    obtain ⟨hI, hnodup, hfree⟩ := h
    obtain ⟨hnot, hnodup⟩ := nodup_cons.mp hnodup
    refine ⟨tableInv_addAddress hI (mem_of_mem_head? hd.1) hlt (hfree _ mem_cons_self),
      hnodup, fun u hu => ?_⟩
    have hne : str2ip ip ≠ u := fun he => hnot (he ▸ hu)
    rw [chain_addAddress, if_neg hne]
    exact hfree u (mem_cons_of_mem _ hu)

/-! ## 4. Reloads -/

/-- Only domains of groups with the name have this entry. -/
def Topo.OwnedBy (t : Topo) (name : List UInt8) (e : IpInfo) : Prop :=
  e.role = .storage ∧ ∀ g ∈ t.groups, ∀ d ∈ g.2, e.ptr = some d → g.1 = name

/-- The addresses of a reload's files are distinct, and the table has none of them for anything else
    than the group it is for. -/
def ApartReload (t : Topo) (cfgs : List GroupCfg) : Prop :=
  (cfgs.flatMap GroupCfg.addrs).Nodup ∧
    ∀ c ∈ cfgs, ∀ u ∈ c.addrs, ∀ e ∈ t.chain u, t.OwnedBy c.name e

theorem destroy_groups (t : Topo) (name : List UInt8) :
    (destroyOldGroup t name).groups = t.groups.filter fun g => !decide (g.1 = name) :=
  (foldl_destroyDomain _ _).1

theorem chain_destroy_subset (t : Topo) (name : List UInt8) (u : UInt32) :
    (destroyOldGroup t name).chain u ⊆ t.chain u :=
  (((foldl_destroyDomain (t.domainsOf name) _).2.2.2 _).filter _).subset

theorem chain_destroy_nil (hI : TableInv t []) {name : List UInt8}
    (hown : ∀ e ∈ t.chain u, t.OwnedBy name e) : (destroyOldGroup t name).chain u = [] := by
  refine eq_nil_iff_forall_not_mem.mpr fun e he => ?_
  obtain ⟨hrole, honly⟩ := hown e (chain_destroy_subset t name u he)
  have hI' := tableInv_destroy hI name
  obtain ⟨d, hd, hptr, -⟩ := hI'.owner he hrole
  have hmem := hI'.linked.symm.subset hd
  rw [nil_append, destroy_groups] at hmem
  obtain ⟨g, hg, hdg⟩ := mem_flatMap.mp hmem
  obtain ⟨hg, hname⟩ := mem_filter.mp hg
  exact absurd (honly g hg d hdg hptr) (by simpa using hname)

/-- What reading a group's file does to the groups and to the chains of other addresses. -/
structure ReadFrom (t₀ : Topo) (name : List UInt8) (us : List UInt32) (t : Topo) : Prop where
  next_le : t₀.next ≤ t.next
  groups : ∃ ds, t.groups = (name, ds) :: t₀.groups ∧ ∀ d ∈ ds, t₀.next ≤ d
  chain : ∀ u ∉ us, t.chain u = t₀.chain u

theorem readFrom_reading (t₀ : Topo) (name : List UInt8) (us : List UInt32) :
    KeptByReading fun t rest => ReadFrom t₀ name us t ∧ ∀ u ∈ rest, u ∈ us where
  skip := fun h => ⟨h.1, fun u hu => h.2 u (mem_cons_of_mem _ hu)⟩
  tick := fun h => ⟨⟨Nat.le_succ_of_le h.1.next_le, h.1.groups, h.1.chain⟩, h.2⟩
  link := by
    intro t rest dname hg h
    obtain ⟨⟨hle, ⟨ds, hgs, hds⟩, hchain⟩, hrest⟩ := h
    refine ⟨⟨Nat.le_succ_of_le hle, ⟨t.next :: ds, ?_, ?_⟩, hchain⟩, hrest⟩
    · simp only [Topo.link, hgs, linkFirst]
    · intro d hd
      obtain rfl | hd := mem_cons.mp hd
      · exact hle
      · exact hds d hd
  add := by
    intro t rest d ip hlt hd h
    obtain ⟨⟨hle, hgs, hchain⟩, hrest⟩ := h
    refine ⟨⟨Nat.le_succ_of_le hle, hgs, fun u hu => ?_⟩,
      fun u hu => hrest u (mem_cons_of_mem _ hu)⟩
    have hne : str2ip ip ≠ u := fun he => hu (he ▸ hrest _ mem_cons_self)
    rw [chain_addAddress, if_neg hne]
    exact hchain u hu

/-- What `init_group` can do to the groups and to the chains of addresses that its file does not
    have: groups with domains are those of before or have new domains only, entries only go. -/
structure Regrouped (t : Topo) (us : List UInt32) (t' : Topo) : Prop where
  groups : ∀ g ∈ t'.groups, g ∈ t.groups ∨ ∀ d ∈ g.2, t.next ≤ d
  chain : ∀ u ∉ us, t'.chain u ⊆ t.chain u

theorem regrouped_destroy (t : Topo) (name : List UInt8) (us : List UInt32) :
    Regrouped t us (destroyOldGroup t name) where
  groups := by
    intro g hg
    rw [destroy_groups] at hg
    exact .inl (mem_filter.mp hg).1
  chain := fun u _ => chain_destroy_subset t name u

theorem tableInv_initGroup {mem : Nat → Bool} {c : GroupCfg} (hI : TableInv t [])
    (hnodup : c.addrs.Nodup) (hown : ∀ u ∈ c.addrs, ∀ e ∈ t.chain u, t.OwnedBy c.name e) :
    TableInv (initGroup mem t c).2 [] ∧ Regrouped t c.addrs (initGroup mem t c).2 := by
  have hI₀ := tableInv_destroy hI c.name
  have hR₀ := regrouped_destroy t c.name c.addrs
  have hnext : (destroyOldGroup t c.name).next = t.next := (foldl_destroyDomain _ _).2.2.1
  -- the new group without a domain
  set t₁ : Topo := { destroyOldGroup t c.name with
    groups := (c.name, []) :: (destroyOldGroup t c.name).groups } with ht₁
  have hI₁ : TableInv t₁ [] := ⟨hI₀.placed, hI₀.lt, hI₀.nodup, hI₀.linked, hI₀.addrs_nodup,
    hI₀.listed, hI₀.others⟩
  have hR₁ : ∀ {t'}, ReadFrom (destroyOldGroup t c.name) c.name c.addrs t' →
      Regrouped t c.addrs t' := by
    intro t' hF
    obtain ⟨ds, hgs, hds⟩ := hF.groups
    refine ⟨fun g hg => ?_, fun u hu => ?_⟩
    · rw [hgs] at hg
      obtain rfl | hg := mem_cons.mp hg
      · exact .inr fun d hd => hnext ▸ hds d hd
      · exact hR₀.groups g hg
    · rw [hF.chain u hu]
      exact hR₀.chain u hu
  have hF₁ : ReadFrom (destroyOldGroup t c.name) c.name c.addrs t₁ :=
    ⟨Nat.le_refl _, ⟨[], rfl, fun d hd => by cases hd⟩, fun _ _ => rfl⟩
  unfold initGroup
  cases hfile : c.iplist with
  | none => exact ⟨hI₀, hR₀⟩
  | some file =>
    cases file with
    | none => exact ⟨hI₁, hR₁ hF₁⟩
    | some content =>
      have haddrs : lineAddrs (fgetsLines content []) = c.addrs := by
        unfold GroupCfg.addrs
        rw [hfile]
      have hstart : TableReading t₁ c.addrs :=
        ⟨hI₁, hnodup, fun u hu => chain_destroy_nil hI (hown u hu)⟩
      refine ⟨(@readLines_rule mem t₁ _ tableInv_reading _ [] (cons_ne_nil _ _) ?_).1,
        hR₁ (@readLines_rule mem t₁ _ (readFrom_reading _ c.name c.addrs) _ []
          (cons_ne_nil _ _) ?_).1⟩
      · rw [haddrs, append_nil]
        exact hstart
      · rw [haddrs, append_nil]
        exact ⟨hF₁, fun u hu => hu⟩

theorem Regrouped.apart {t' : Topo} {c : GroupCfg} {cs : List GroupCfg} (hI : TableInv t [])
    (hR : Regrouped t c.addrs t') (h : ApartReload t (c :: cs)) : ApartReload t' cs := by
  obtain ⟨hnodup, hown⟩ := h
  rw [flatMap_cons, nodup_append] at hnodup
  obtain ⟨-, hcs, hdisj⟩ := hnodup
  refine ⟨hcs, fun c' hc' u hu e he => ?_⟩
  have hnot : u ∉ c.addrs := fun huc =>
    hdisj u huc u (mem_flatMap.mpr ⟨c', hc', hu⟩) rfl
  have he := hR.chain u hnot he
  obtain ⟨hrole, honly⟩ := hown c' (mem_cons_of_mem _ hc') u hu e he
  refine ⟨hrole, fun g hg d hd hptr => ?_⟩
  obtain hg | hg := hR.groups g hg
  · exact honly g hg d hd hptr
  obtain ⟨d', hd', hptr', -⟩ := hI.owner he hrole
  cases hptr.symm.trans hptr'
  exact absurd (hI.lt d hd') (Nat.not_lt.mpr (hg d hd))

theorem tableInv_tick (hI : TableInv t []) : TableInv t.tick [] :=
  ⟨hI.placed, fun d hd => Nat.lt_succ_of_lt (hI.lt d hd), hI.nodup, hI.linked, hI.addrs_nodup,
    hI.listed, hI.others⟩

theorem tableInv_initGroups {mem : Nat → Bool} {cfgs : List GroupCfg} (hI : TableInv t [])
    (hapart : ApartReload t cfgs) : TableInv (initGroups mem cfgs t).2 [] := by
  induction cfgs generalizing t with
  | nil => exact hI
  | cons c cs ih =>
    have htick := tableInv_tick hI
    have hnodup : c.addrs.Nodup := by
      have h := hapart.1
      rw [flatMap_cons, nodup_append] at h
      exact h.1
    obtain ⟨hinv, hR⟩ := @tableInv_initGroup t.tick mem c htick hnodup
      (hapart.2 c mem_cons_self)
    unfold initGroups
    split
    · exact htick
    simp only
    split
    · exact hinv
    · exact ih hinv (hR.apart htick hapart)

end Invariant

/-! ## 5. Runs -/

/-- A reload: which allocations succeed, whether the lock is there, and the configuration. -/
structure Reload where
  mem : Nat → Bool
  lock : Bool
  cfgs : List GroupCfg

def reloadNext (t : Topo) (r : Reload) : Option Topo := some (initStorage r.mem r.lock r.cfgs t).2

/-- The table is in order and has no storage. -/
def NoStorage (b : Fin 32 → List IpInfo) : Prop :=
  Buckets.Placed IpInfo.uip ipBucket b ∧
    ∀ u, ∀ e ∈ Buckets.chain IpInfo.uip ipBucket b u, e.role ≠ .storage

theorem noStorage_insert {b : Fin 32 → List IpInfo} (hb : NoStorage b) {e : IpInfo}
    (he : e.role ≠ .storage) : NoStorage (Buckets.insert IpInfo.uip ipBucket b e) := by
  refine ⟨Buckets.placed_insert hb.1 e, fun u x hx => ?_⟩
  rw [Buckets.chain_insert] at hx
  split at hx
  · obtain rfl | hx := mem_cons.mp hx
    · exact he
    · exact hb.2 u x hx
  · exact hb.2 u x hx

theorem noStorage_nameservers (ns : List (List UInt8 × UInt32)) {b : Fin 32 → List IpInfo}
    (hb : NoStorage b) : NoStorage (ns.foldl (fun b n => Buckets.insert IpInfo.uip ipBucket b
      ⟨.nameserver, n.1.take 15, n.2, none⟩) b) := by
  induction ns generalizing b with
  | nil => exact hb
  | cons n ns ih => exact ih (noStorage_insert hb Role.noConfusion)

theorem tableInv_boot (nameservers : List (List UInt8 × UInt32)) (poss : List UInt8) :
    TableInv (Topo.boot nameservers poss) [] := by
  have hempty : NoStorage fun _ => [] := ⟨fun _ _ h => (nomatch h), fun _ _ h => (nomatch h)⟩
  have hboot : NoStorage (Topo.boot nameservers poss).allip :=
    noStorage_insert (noStorage_nameservers nameservers hempty) Role.noConfusion
  exact ⟨hboot.1, fun _ hd => (nomatch hd), nodup_nil, List.Perm.refl _,
    fun _ hd => (nomatch hd), fun _ hd => (nomatch hd), fun u _ => hboot.2 u⟩

/-- **No entry of the table refers to a dead domain**, in any state that reloads with addresses of
    their own reach. -/
theorem table_of_run {nameservers : List (List UInt8 × UInt32)} {poss : List UInt8} {t : Topo}
    (h : Run reloadNext (fun t r => ApartReload t r.cfgs) (Topo.boot nameservers poss) t) :
    t.TableOk := by
  refine (Run.inv (I := fun t => TableInv t []) (tableInv_boot nameservers poss) ?_ h).tableOk
  intro t t' r hI hok ht
  cases ht
  unfold initStorage
  split
  · exact hI
  · exact tableInv_initGroups hI hok

instance (t : Topo) (name : List UInt8) (e : IpInfo) : Decidable (t.OwnedBy name e) :=
  inferInstanceAs (Decidable (_ ∧ _))

-- the addresses are those of the files: the instance must not go through every `UInt32`
instance (t : Topo) (cfgs : List GroupCfg) : Decidable (ApartReload t cfgs) :=
  have (c : GroupCfg) : Decidable (∀ u ∈ c.addrs, ∀ e ∈ t.chain u, t.OwnedBy c.name e) :=
    List.decidableBAll _ _
  inferInstanceAs (Decidable (_ ∧ _))

/-- A reload of files that can be read, with memory enough. -/
def plainReload (files : List (List UInt8 × List UInt8)) : Reload where
  mem := fun _ => true
  lock := true
  cfgs := files.map fun f => ⟨f.1, some (some f.2)⟩

def afterReloads (rs : List Reload) : Topo :=
  (exec reloadNext (Topo.boot [] [57]) rs).getD (Topo.boot [] [57])

/-- The group "g" with the file "d:1.1.1.1,1.1.1.2", loaded twice. -/
def ownReloads : List Reload :=
  List.replicate 2 (plainReload [([103],
    [100, 58, 49, 46, 49, 46, 49, 46, 49, 44, 49, 46, 49, 46, 49, 46, 50, 10])])

theorem table_of_run_own : (afterReloads ownReloads).TableOk ∧
    ((afterReloads ownReloads).entries.map IpInfo.uip).length = 3 :=
  ⟨table_of_run (run_of_exec ownReloads .start (by decide +kernel)
      (exec_eq_getD _ (by decide +kernel))), by decide +kernel⟩

/-- The groups "g" and "h", both with the file "d:1.1.1.1", loaded twice. -/
def sharedReloads : List Reload :=
  List.replicate 2 (plainReload [([103], [100, 58, 49, 46, 49, 46, 49, 46, 49, 10]),
    ([104], [100, 58, 49, 46, 49, 46, 49, 46, 49, 10])])

/-- **Two groups share an address**: when they are loaded again, the group loaded first deletes the
    other one's entry and keeps its own, which refers to a freed domain from then on. -/
theorem shared_address_dangles :
    Reach reloadNext (Topo.boot [] [57]) (afterReloads sharedReloads) ∧
      ¬ (afterReloads sharedReloads).TableOk := by
  refine ⟨reach_of_exec sharedReloads .start (exec_eq_getD _ (by decide +kernel)), fun h => ?_⟩
  have hstale : ∃ e ∈ (afterReloads sharedReloads).entries, e.role = .storage ∧
      ∀ d ∈ (afterReloads sharedReloads).alldomain, e.ptr ≠ some d := by decide +kernel
  obtain ⟨e, he, hrole, hdead⟩ := hstale
  obtain ⟨d, hd, hptr, -⟩ := h.live e he hrole
  exact hdead d hd hptr

end Pfs
