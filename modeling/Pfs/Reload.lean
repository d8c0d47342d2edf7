/-
  What a reload that fails leaves of a group (network/pfs_init.c).

  `init_group` destroys the old group before it looks for the new one, and undoes nothing. What is
  there after a failure is what the file describes up to the point of the failure; that is the old
  group exactly if the file repeats it up to there.

  Main results: `Topo.view`, `view_initGroup`, `failed_reload_keeps`, `missing_iplist_destroys`.
-/
import Pfs.IpTable

namespace Pfs

open Lib Function List

/-! ## 1. What the structures say about a group -/

/-- A domain: its name, and its addresses with their texts. -/
abbrev DomView := List UInt8 × List (UInt32 × List UInt8)

def DomRec.view (d : DomRec) : DomView := (d.name, d.ips)

/-- The domains of a group by `grouplist` and by `alldomain`, and its addresses by `allip`. -/
structure GroupView where
  groups : List DomView
  all : List DomView
  ips : Fin 32 → List (UInt32 × List UInt8)

def IpInfo.forOneOf (e : IpInfo) (ds : List Nat) : Bool :=
  decide (e.role = .storage) && ds.any fun d => decide (e.ptr = some d)

def Topo.view (t : Topo) (name : List UInt8) : GroupView where
  groups := (t.domainsOf name).map fun d => (t.dom d).view
  all := (t.alldomain.filter fun d => decide (d ∈ t.domainsOf name)).map fun d => (t.dom d).view
  ips := fun b => ((t.allip b).filter fun e => e.forOneOf (t.domainsOf name)).map
    fun e => (e.uip, e.sip)

/-- What the structures say when they agree on these domains, newest first. -/
def GroupView.of (vs : List DomView) : GroupView where
  groups := vs
  all := vs
  ips := fun b => (vs.flatMap fun v => v.2.reverse).filter fun p => decide (ipBucket p.1 = b)

/-- Everything in use was allocated. -/
structure Topo.Allocated (t : Topo) : Prop where
  all_lt : ∀ d ∈ t.alldomain, d < t.next
  group_lt : ∀ g ∈ t.groups, ∀ d ∈ g.2, d < t.next
  ptr_lt : ∀ b, ∀ e ∈ t.allip b, ∀ d, e.ptr = some d → d < t.next

/-- A group is being built: it is the first one and the only one of its name, and the structures
    agree on its domains `ds`. -/
structure Building (name : List UInt8) (ds : List Nat) (gs : List (List UInt8 × List Nat))
    (t : Topo) : Prop where
  allocated : t.Allocated
  groups : t.groups = (name, ds) :: gs
  other : ∀ g ∈ gs, g.1 ≠ name
  nodup : ds.Nodup
  all : t.alldomain.filter (fun d => decide (d ∈ ds)) = ds
  ips : ∀ b, ((t.allip b).filter fun e => e.forOneOf ds).map (fun e => (e.uip, e.sip)) =
    (ds.flatMap fun d => (t.dom d).ips.reverse).filter fun p => decide (ipBucket p.1 = b)

section View

variable {t : Topo} {name : List UInt8}

theorem domainsOf_first {ds : List Nat} {gs : List (List UInt8 × List Nat)}
    (hgs : t.groups = (name, ds) :: gs) (hother : ∀ g ∈ gs, g.1 ≠ name) :
    t.domainsOf name = ds := by
  have hnil : gs.filter (fun g => decide (g.1 = name)) = [] :=
    filter_eq_nil_iff.mpr fun g hg => by simpa using hother g hg
  unfold Topo.domainsOf
  rw [hgs, filter_cons_of_pos (by simp), hnil]
  simp

theorem view_of_nil (h : t.domainsOf name = []) : t.view name = .of [] := by
  unfold Topo.view GroupView.of IpInfo.forOneOf
  simp [h]

variable {d : Nat}

theorem forOneOf_cons {e : IpInfo} {ds : List Nat} (h : e.ptr ≠ some d) :
    e.forOneOf (d :: ds) = e.forOneOf ds := by
  simp [IpInfo.forOneOf, h]

theorem allocated_tick (h : t.Allocated) : t.tick.Allocated where
  all_lt := fun d hd => Nat.lt_succ_of_lt (h.all_lt d hd)
  group_lt := fun g hg d hd => Nat.lt_succ_of_lt (h.group_lt g hg d hd)
  ptr_lt := fun b e he d hd => Nat.lt_succ_of_lt (h.ptr_lt b e he d hd)

theorem allocated_link (h : t.Allocated) (dname : List UInt8) : (t.link dname).Allocated where
  all_lt := by
    intro d hd
    obtain rfl | hd := mem_cons.mp hd
    · exact Nat.lt_succ_self _
    · exact Nat.lt_succ_of_lt (h.all_lt d hd)
  group_lt := by
    intro g hg d hd
    have hg : g ∈ linkFirst t.next t.groups := hg
    cases hgs : t.groups with
    | nil =>
      rw [hgs] at hg
      cases hg
    | cons g₀ gs =>
      rw [hgs] at hg
      obtain rfl | hg := mem_cons.mp hg
      · obtain rfl | hd := mem_cons.mp hd
        · exact Nat.lt_succ_self _
        · exact Nat.lt_succ_of_lt (h.group_lt g₀ (by simp [hgs]) d hd)
      · exact Nat.lt_succ_of_lt (h.group_lt g (by simp [hgs, hg]) d hd)
  ptr_lt := fun b e he d hd => Nat.lt_succ_of_lt (h.ptr_lt b e he d hd)

theorem mem_insert_bucket {b : Fin 32 → List IpInfo} {e x : IpInfo} {i : Fin 32}
    (hx : x ∈ Buckets.insert IpInfo.uip ipBucket b e i) : x = e ∨ x ∈ b i := by
  unfold Buckets.insert at hx
  by_cases hi : i = ipBucket e.uip
  · subst hi
    rw [update_self] at hx
    exact mem_cons.mp hx
  · rw [update_of_ne hi] at hx
    exact .inr hx

theorem allocated_addAddress {ip : List UInt8} (h : t.Allocated)
    (hlt : (t.dom d).ips.length < MAX_IP_DOMAIN) (hd : d < t.next) :
    (t.addAddress d ip hlt).Allocated where
  all_lt := fun d hd => Nat.lt_succ_of_lt (h.all_lt d hd)
  group_lt := fun g hg d hd => Nat.lt_succ_of_lt (h.group_lt g hg d hd)
  ptr_lt := by
    intro b e he d' hd'
    obtain rfl | he := mem_insert_bucket he
    · cases hd'
      exact Nat.lt_succ_of_lt hd
    · exact Nat.lt_succ_of_lt (h.ptr_lt b e he d' hd')

theorem allocated_destroyOldGroup (h : t.Allocated) (name : List UInt8) :
    (destroyOldGroup t name).Allocated := by
  have hall : ∀ (ds : List Nat) (t : Topo), (ds.foldl destroyDomain t).alldomain ⊆ t.alldomain := by
    intro ds
    induction ds with
    | nil => exact fun t d hd => hd
    | cons d ds ih => exact fun t x hx => mem_of_mem_erase (ih (destroyDomain t d) hx)
  obtain ⟨-, -, hnext, hsub⟩ := foldl_destroyDomain (t.domainsOf name)
    { t with groups := t.groups.filter fun g => !decide (g.1 = name) }
  have hnext : (destroyOldGroup t name).next = t.next := hnext
  constructor
  case all_lt =>
    intro d hd
    have hmem := hall (t.domainsOf name) _ hd
    rw [hnext]
    exact h.all_lt d hmem
  case group_lt =>
    intro g hg d hd
    rw [destroy_groups] at hg
    rw [hnext]
    exact h.group_lt g (mem_filter.mp hg).1 d hd
  case ptr_lt =>
    intro b e he d hd
    rw [hnext]
    exact h.ptr_lt b e ((hsub b).subset he) d hd

/-! ## 2. Building a group -/

variable {ds : List Nat} {gs : List (List UInt8 × List Nat)}

theorem Building.domainsOf (hB : Building name ds gs t) : t.domainsOf name = ds :=
  domainsOf_first hB.groups hB.other

theorem Building.view (hB : Building name ds gs t) :
    t.view name = .of (ds.map fun d => (t.dom d).view) := by
  have hips : ∀ b, (t.view name).ips b = (GroupView.of (ds.map fun d => (t.dom d).view)).ips b := by
    intro b
    unfold Topo.view GroupView.of
    simp only [hB.domainsOf, hB.ips b, flatMap_map]
    rfl
  unfold Topo.view at hips ⊢
  rw [GroupView.mk.injEq]
  refine ⟨by rw [hB.domainsOf]; rfl, ?_, funext hips⟩
  simp only [hB.domainsOf, hB.all]
  rfl

theorem building_link (hB : Building name ds gs t) (dname : List UInt8) :
    Building name (t.next :: ds) gs (t.link dname) := by
  have hlt : ∀ d ∈ ds, d < t.next := hB.allocated.group_lt (name, ds) (by simp [hB.groups])
  have hdom : ∀ d ∈ ds, (t.link dname).dom d = t.dom d := fun d hd =>
    update_of_ne (Nat.ne_of_lt (hlt d hd)) _ _
  constructor
  case allocated => exact allocated_link hB.allocated dname
  case groups => simp only [Topo.link, hB.groups, linkFirst]
  case other => exact hB.other
  case nodup => exact nodup_cons.mpr ⟨fun h => Nat.lt_irrefl _ (hlt _ h), hB.nodup⟩
  case all =>
    have hcongr : t.alldomain.filter (fun d => decide (d ∈ t.next :: ds)) = ds := by
      rw [← hB.all]
      refine filter_congr fun d hd => ?_
      have hne : d ≠ t.next := Nat.ne_of_lt (hB.allocated.all_lt d hd)
      rw [hB.all]
      simp [hne]
    unfold Topo.link
    simp only
    rw [filter_cons_of_pos (by simp), hcongr]
  case ips =>
    intro b
    have hcongr : (t.allip b).filter (fun e => e.forOneOf (t.next :: ds)) =
        (t.allip b).filter fun e => e.forOneOf ds :=
      filter_congr fun e he => forOneOf_cons fun hptr =>
        Nat.lt_irrefl _ (hB.allocated.ptr_lt b e he _ hptr)
    have hflat : ((t.next :: ds).flatMap fun d => ((t.link dname).dom d).ips.reverse) =
        ds.flatMap fun d => (t.dom d).ips.reverse := by
      rw [flatMap_cons]
      have hnew : ((t.link dname).dom t.next).ips = [] := by simp [Topo.link, DomRec.named]
      rw [hnew, reverse_nil, nil_append]
      exact flatMap_congr fun d hd => by rw [hdom d hd]
    rw [hflat, ← hB.ips b, ← hcongr]
    rfl

theorem building_addAddress {ip : List UInt8} (hB : Building name (d :: ds) gs t)
    (hlt : (t.dom d).ips.length < MAX_IP_DOMAIN) :
    Building name (d :: ds) gs (t.addAddress d ip hlt) := by
  have hd : d < t.next := hB.allocated.group_lt (name, d :: ds) (by simp [hB.groups]) d
    mem_cons_self
  have hnot : d ∉ ds := (nodup_cons.mp hB.nodup).1
  refine ⟨allocated_addAddress hB.allocated hlt hd, hB.groups, hB.other, hB.nodup, hB.all,
    fun b => ?_⟩
  -- one more in front, on both sides
  have hflat : ((d :: ds).flatMap fun x => ((t.addAddress d ip hlt).dom x).ips.reverse) =
      (str2ip ip, ip.take 15) :: (d :: ds).flatMap fun x => (t.dom x).ips.reverse := by
    have hself : ((t.addAddress d ip hlt).dom d).ips =
        (t.dom d).ips ++ [(str2ip ip, ip.take 15)] := by
      simp [Topo.addAddress, DomRec.add]
    have hother : ∀ x ∈ ds, (t.addAddress d ip hlt).dom x = t.dom x := fun x hx =>
      update_of_ne (ne_of_mem_of_not_mem hx hnot) _ _
    rw [flatMap_cons, flatMap_cons, hself, reverse_append, reverse_singleton,
      append_assoc, singleton_append]
    congr 2
    exact flatMap_congr fun x hx => by rw [hother x hx]
  rw [hflat]
  by_cases hb : ipBucket (str2ip ip) = b
  · have hins : (t.addAddress d ip hlt).allip b =
        ⟨.storage, ip.take 15, str2ip ip, some d⟩ :: t.allip b := by
      subst hb
      exact update_self _ _ _
    rw [hins, filter_cons_of_pos (by simp [IpInfo.forOneOf]), map_cons,
      filter_cons_of_pos (by simp [hb]), hB.ips b]
  · have hins : (t.addAddress d ip hlt).allip b = t.allip b :=
      update_of_ne (Ne.symm hb) _ _
    rw [hins, filter_cons_of_neg (by simpa using hb)]
    exact hB.ips b

theorem building_reading (name : List UInt8) (gs : List (List UInt8 × List Nat)) :
    KeptByReading fun t _ => ∃ ds, Building name ds gs t where
  skip := fun h => h
  tick := by
    intro t rest h
    obtain ⟨ds, hB⟩ := h
    exact ⟨ds, allocated_tick hB.allocated, hB.groups, hB.other, hB.nodup, hB.all, hB.ips⟩
  link := by
    intro t rest dname hg h
    obtain ⟨ds, hB⟩ := h
    exact ⟨_, building_link hB dname⟩
  add := by
    intro t rest d ip hlt hd h
    obtain ⟨ds, hB⟩ := h
    obtain ⟨-, name', ds', gs', hgs⟩ := hd
    have he : ds = d :: ds' := by
      have he := hB.groups.symm.trans hgs
      simp only [List.cons.injEq, Prod.mk.injEq] at he
      exact he.1.2
    subst he
    exact ⟨_, building_addAddress hB hlt⟩

/-! ## 3. What a file describes -/

def lineView (x : List UInt8 × List (List UInt8)) : DomView :=
  (x.1.take 127, x.2.map fun s => (str2ip s, s.take 15))

section Described

variable (mem : Nat → Bool)

/-- Those of the addresses that are entered, with `room` for them; `n` allocations were made. -/
def takenIps (n room : Nat) : List (List UInt8) → List (List UInt8)
  | [] => []
  | ip :: ips =>
    if room = 0 ∨ mem n = false then [] else ip :: takenIps (n + 1) (room - 1) ips

/-- The domains of the lines up to the first failure: a line without a colon, a domain or an address
    without memory, or an address too many. -/
def lineViews (n : Nat) : List (List UInt8) → List DomView
  | [] => []
  | line :: lines =>
    match splitLine line with
    | none => []
    | some x =>
      if mem n = false then []
      else
        let ips := takenIps mem (n + 1) MAX_IP_DOMAIN x.2
        lineView (x.1, ips) ::
          if ips.length = x.2.length then lineViews (n + 1 + x.2.length) lines else []

/-- **What a group's file describes** up to the first failure, when `n` allocations were made before
    it is read. -/
def GroupCfg.described (c : GroupCfg) (n : Nat) : List DomView :=
  match c.iplist with
  | some (some content) => lineViews mem n (fgetsLines content [])
  | _ => []

end Described

variable {mem : Nat → Bool}

/-- The loop over the addresses enters those of `takenIps`, and fails if that is not all. -/
theorem addAddresses_takes (ips : List (List UInt8)) :
    let taken := takenIps mem t.next (MAX_IP_DOMAIN - (t.dom d).ips.length) ips
    let r := addAddresses mem d ips t
    r.1 = decide (taken.length = ips.length) ∧ r.2.groups = t.groups ∧
      (r.2.dom d).view =
        ((t.dom d).name, (t.dom d).ips ++ taken.map fun s => (str2ip s, s.take 15)) ∧
      (∀ x ≠ d, r.2.dom x = t.dom x) ∧ t.next ≤ r.2.next ∧
      (r.1 = true → r.2.next = t.next + ips.length) := by
  induction ips generalizing t with
  | nil =>
    exact ⟨rfl, rfl, by simp [addAddresses, takenIps, DomRec.view], fun _ _ => rfl, Nat.le_refl _,
      fun _ => rfl⟩
  | cons ip ips ih =>
    unfold addAddresses takenIps addStorageToDomain
    by_cases hlt : (t.dom d).ips.length < MAX_IP_DOMAIN
    · cases hm : mem t.next with
      | false => simp [hlt, addIp2Pfs, hm, DomRec.view, Topo.tick]
      | true =>
        have hself : (t.addAddress d ip hlt).dom d = (t.dom d).add ip hlt := update_self _ _ _
        have hroom : MAX_IP_DOMAIN - ((t.addAddress d ip hlt).dom d).ips.length =
            MAX_IP_DOMAIN - (t.dom d).ips.length - 1 := by
          rw [hself]
          simp only [DomRec.add, length_append, length_cons, length_nil]
          omega
        have ih := @ih (t.addAddress d ip hlt)
        rw [hroom] at ih
        obtain ⟨hok, hgroups, hview, hother, hle, hnext⟩ := ih
        have hne : MAX_IP_DOMAIN - (t.dom d).ips.length ≠ 0 := by omega
        simp only [dif_pos hlt, addIp2Pfs, hm, Bool.true_eq_false, or_false, if_false, if_neg hne]
        refine ⟨hok.trans (decide_eq_decide.mpr Nat.succ_inj.symm), hgroups, ?_, fun x hx => ?_,
          Nat.le_trans (Nat.le_succ _) hle, fun h => ?_⟩
        · exact hview.trans (by simp [DomRec.add, Topo.addAddress])
        · exact (hother x hx).trans (update_of_ne hx _ _)
        · have hend : _ = t.next + 1 + ips.length := hnext h
          exact hend.trans (by rw [length_cons]; omega)
    · have hfull : MAX_IP_DOMAIN - (t.dom d).ips.length = 0 := by omega
      simp [hlt, hfull, DomRec.view]

theorem readLines_views {lines : List (List UInt8)}
    (hgs : t.groups = (name, ds) :: gs) (hlt : ∀ d ∈ ds, d < t.next) :
    ∃ ds', (readLines mem lines t).2.groups = (name, ds') :: gs ∧
      ds'.map (fun d => ((readLines mem lines t).2.dom d).view) =
        (lineViews mem t.next lines).reverse ++ ds.map fun d => (t.dom d).view := by
  induction lines generalizing t ds with
  | nil => exact ⟨ds, hgs, rfl⟩
  | cons line lines ih =>
    unfold readLines lineViews
    cases hl : splitLine line with
    | none => exact ⟨ds, hgs, rfl⟩
    | some x =>
      cases hm : mem t.next with
      | false => exact ⟨ds, hgs, rfl⟩
      | true =>
        have hnew : (t.link x.1).dom t.next = .named x.1 := update_self _ _ _
        obtain ⟨hok, hgroups, hview, hother, hle, hnext⟩ :=
          @addAddresses_takes (t.link x.1) t.next mem x.2
        simp only [Bool.true_eq_false, if_false]
        generalize addAddresses mem t.next x.2 (t.link x.1) = r at *
        have hview : (r.2.dom t.next).view =
            lineView (x.1, takenIps mem (t.next + 1) MAX_IP_DOMAIN x.2) := by
          rw [hview, hnew]
          rfl
        have hok : r.1 = decide ((takenIps mem (t.next + 1) MAX_IP_DOMAIN x.2).length =
            x.2.length) := by
          rw [hok, hnew]
          rfl
        have hgs' : r.2.groups = (name, t.next :: ds) :: gs := by
          rw [hgroups]
          simp only [Topo.link, hgs, linkFirst]
        have hold : (t.next :: ds).map (fun d => (r.2.dom d).view) =
            lineView (x.1, takenIps mem (t.next + 1) MAX_IP_DOMAIN x.2) ::
              ds.map fun d => (t.dom d).view := by
          rw [map_cons, hview]
          refine congrArg _ (map_congr_left fun d hd => ?_)
          have hne : d ≠ t.next := Nat.ne_of_lt (hlt d hd)
          rw [hother d hne]
          exact congrArg DomRec.view (update_of_ne hne _ _)
        by_cases hall : (takenIps mem (t.next + 1) MAX_IP_DOMAIN x.2).length = x.2.length
        · rw [decide_eq_true hall] at hok
          have hend : r.2.next = t.next + 1 + x.2.length := hnext hok
          have hlt' : ∀ d ∈ t.next :: ds, d < r.2.next := by
            intro d hd
            obtain rfl | hd := mem_cons.mp hd
            · omega
            · have := hlt d hd
              omega
          obtain ⟨ds', hds', hviews⟩ := ih hgs' hlt'
          simp only [hok, Bool.true_eq_false, if_false, if_pos hall]
          refine ⟨ds', hds', ?_⟩
          rw [hviews, hold, hend, reverse_cons, append_assoc, singleton_append]
        · rw [decide_eq_false hall] at hok
          simp only [hok, if_true, if_neg hall]
          exact ⟨_, hgs', hold⟩

/-! ## 4. A failed reload -/

theorem building_empty (h : t.Allocated) (name : List UInt8) :
    Building name [] (destroyOldGroup t name).groups { destroyOldGroup t name with
      groups := (name, []) :: (destroyOldGroup t name).groups } := by
  have hA := allocated_destroyOldGroup h name
  refine ⟨⟨hA.all_lt, fun g hg d hd => ?_, hA.ptr_lt⟩, rfl, fun g hg => ?_, nodup_nil, ?_, ?_⟩
  · obtain rfl | hg := mem_cons.mp hg
    · cases hd
    · exact hA.group_lt g hg d hd
  · rw [destroy_groups] at hg
    simpa using (mem_filter.mp hg).2
  · simp
  · simp [IpInfo.forOneOf]

theorem domainsOf_destroy (t : Topo) (name : List UInt8) :
    (destroyOldGroup t name).domainsOf name = [] := by
  have hnil : ((t.groups.filter fun g => !decide (g.1 = name)).filter
      fun g => decide (g.1 = name)) = [] :=
    filter_eq_nil_iff.mpr fun g hg => by simpa using (mem_filter.mp hg).2
  unfold Topo.domainsOf
  rw [destroy_groups, hnil]
  rfl

/-- **What `init_group` leaves of a group**: the domains that its file describes up to the first
    failure, and nothing else. -/
theorem view_initGroup (h : t.Allocated) (c : GroupCfg) :
    (initGroup mem t c).2.view c.name = .of (c.described mem t.next).reverse := by
  have hB := building_empty h c.name
  have hnext : (destroyOldGroup t c.name).next = t.next := (foldl_destroyDomain (t.domainsOf c.name)
    { t with groups := t.groups.filter fun g => !decide (g.1 = c.name) }).2.2.1
  unfold initGroup GroupCfg.described
  cases c.iplist with
  | none => exact view_of_nil (domainsOf_destroy t c.name)
  | some file =>
    cases file with
    | none => exact hB.view
    | some content =>
      obtain ⟨ds, hD⟩ := @readLines_rule mem _ _ (building_reading c.name _)
        (fgetsLines content []) [] (cons_ne_nil _ _) ⟨[], hB⟩
      obtain ⟨ds', hgs, hviews⟩ := readLines_views hB.groups (fun d hd => nomatch hd)
      have he : ds = ds' := by
        have he := hD.groups.symm.trans hgs
        simp only [List.cons.injEq, Prod.mk.injEq] at he
        exact he.1.2
      subst he
      rw [map_nil, append_nil] at hviews
      simp only
      rw [hD.view, hviews, ← hnext]

theorem allocated_reading : KeptByReading fun t _ => t.Allocated where
  skip := fun h => h
  tick := allocated_tick
  link := fun name _ h => allocated_link h name
  add := fun hlt hd h => allocated_addAddress h hlt (h.all_lt _ (mem_of_mem_head? hd.1))

theorem allocated_initGroup (h : t.Allocated) (c : GroupCfg) :
    (initGroup mem t c).2.Allocated := by
  have hA := (building_empty h c.name).allocated
  unfold initGroup
  cases c.iplist with
  | none => exact allocated_destroyOldGroup h c.name
  | some file =>
    cases file with
    | none => exact hA
    | some content =>
      exact @readLines_rule mem _ _ allocated_reading _ [] (cons_ne_nil _ _) hA

/-- The groups in front of the one that fails are read. -/
theorem initGroups_failed (h : t.Allocated) {cfgs : List GroupCfg} {c : GroupCfg}
    (hfail : (initGroups mem cfgs t).1 = .failed c) :
    ∃ before t₀, before ++ [c] <+: cfgs ∧ initGroups mem before t = (.done, t₀) ∧ t₀.Allocated ∧
      (initGroups mem cfgs t).2 = (initGroup mem t₀.tick c).2 := by
  induction cfgs generalizing t with
  | nil => cases hfail
  | cons c' cs ih =>
    unfold initGroups at hfail ⊢
    by_cases hm : mem t.next = false
    · rw [if_pos hm] at hfail
      cases hfail
    rw [if_neg hm] at hfail ⊢
    simp only at hfail ⊢
    by_cases hr : (initGroup mem t.tick c').1 = false
    · rw [if_pos hr] at hfail ⊢
      cases hfail
      exact ⟨[], t, ⟨cs, rfl⟩, rfl, h, rfl⟩
    rw [if_neg hr] at hfail ⊢
    obtain ⟨before, t₀, hpre, hdone, h₀, he⟩ :=
      ih (allocated_initGroup (allocated_tick h) c') hfail
    refine ⟨c' :: before, t₀, by simpa using hpre, ?_, h₀, he⟩
    simp only [if_neg hm, if_neg hr, hdone]

/-- **A failed reload leaves a group as it was exactly if the group's file repeats it up to the
    point of the failure**: the structures agreed on the domains that the file describes up to
    there. `t₀` is the topology after the groups in front of the one that fails. -/
theorem failed_reload_keeps {lock : Bool} {cfgs : List GroupCfg} {c : GroupCfg} (h : t.Allocated)
    (hfail : (initStorage mem lock cfgs t).1 = .failed c) :
    ∃ before t₀, before ++ [c] <+: cfgs ∧ initGroups mem before t = (.done, t₀) ∧
      ((initStorage mem lock cfgs t).2.view c.name = t.view c.name ↔
        t.view c.name = .of (c.described mem (t₀.next + 1)).reverse) := by
  unfold initStorage at hfail ⊢
  by_cases hl : lock = false
  · rw [if_pos hl] at hfail
    cases hfail
  rw [if_neg hl] at hfail ⊢
  obtain ⟨before, t₀, hpre, hdone, h₀, he⟩ := initGroups_failed h hfail
  refine ⟨before, t₀, hpre, hdone, ?_⟩
  rw [he, view_initGroup (allocated_tick h₀)]
  exact eq_comm

end View

theorem allocated_of_run {nameservers : List (List UInt8 × UInt32)} {poss : List UInt8} {t : Topo}
    (h : Reach reloadNext (Topo.boot nameservers poss) t) : t.Allocated := by
  have hnone : ∀ b, ∀ e ∈ (Topo.boot nameservers poss).allip b, e.ptr = none := by
    have hfold : ∀ (ns : List (List UInt8 × UInt32)) (a : Fin 32 → List IpInfo),
        (∀ b, ∀ e ∈ a b, e.ptr = none) → ∀ b, ∀ e ∈ ns.foldl (fun a n =>
          Buckets.insert IpInfo.uip ipBucket a ⟨.nameserver, n.1.take 15, n.2, none⟩) a b,
        e.ptr = none := by
      intro ns
      induction ns with
      | nil => exact fun a ha => ha
      | cons n ns ih =>
        refine fun a ha => ih _ fun b e he => ?_
        obtain rfl | he := mem_insert_bucket he
        · rfl
        · exact ha b e he
    intro b e he
    obtain rfl | he := mem_insert_bucket he
    · rfl
    · exact hfold nameservers _ (fun _ _ h => absurd h not_mem_nil) b e he
  have hgroups : ∀ (mem : Nat → Bool) (cfgs : List GroupCfg) (t : Topo), t.Allocated →
      (initGroups mem cfgs t).2.Allocated := by
    intro mem cfgs
    induction cfgs with
    | nil => exact fun t h => h
    | cons c cs ih =>
      intro t h
      unfold initGroups
      split
      · exact allocated_tick h
      simp only
      split
      · exact allocated_initGroup (allocated_tick h) c
      · exact ih _ (allocated_initGroup (allocated_tick h) c)
  have hboot : (Topo.boot nameservers poss).Allocated := by
    refine ⟨fun d hd => absurd hd not_mem_nil, fun g hg => absurd hg not_mem_nil, ?_⟩
    intro b e he d hd
    rw [hnone b e he] at hd
    cases hd
  refine Run.inv (I := Topo.Allocated) hboot ?_ h
  intro t t' r hA _ ht
  cases ht
  unfold initStorage
  split
  · exact hA
  · exact hgroups r.mem r.cfgs t hA

/-! ### The group "g" with the file "d:1.1.1.1" -/

def goodFile : List UInt8 := [100, 58, 49, 46, 49, 46, 49, 46, 49, 10]

def oneGroup : Topo := afterReloads [plainReload [([103], goodFile)]]

/-- A line without a colon is appended to the file. -/
theorem failed_reload_appended :
    (initStorage (fun _ => true) true [⟨[103], some (some (goodFile ++ [120]))⟩] oneGroup).2.view
        [103] = oneGroup.view [103] ∧
      (oneGroup.view [103]).groups = [([100], [(0x01010101, [49, 46, 49, 46, 49, 46, 49])])] := by
  have hload : oneGroup.view [103] =
      .of (GroupCfg.described (fun _ => true) ⟨[103], some (some goodFile)⟩ 1).reverse :=
    view_initGroup (allocated_tick (allocated_of_run .start)) ⟨[103], some (some goodFile)⟩
  obtain ⟨before, t₀, hpre, hdone, hkeeps⟩ := @failed_reload_keeps oneGroup (fun _ => true) true
    [⟨[103], some (some (goodFile ++ [120]))⟩] ⟨[103], some (some (goodFile ++ [120]))⟩
    (allocated_of_run (@reach_of_exec _ _ _ _ _ _ [plainReload [([103], goodFile)]] .start rfl)) rfl
  have hnil : before = [] := by
    have hlen := hpre.length_le
    rw [length_append] at hlen
    exact eq_nil_of_length_eq_zero (by omega)
  subst hnil
  cases hdone
  refine ⟨hkeeps.mpr ?_, by decide +kernel⟩
  rw [hload]
  exact congrArg GroupView.of (by decide +kernel)

/-- **A reload without the group's iplist entry, or with a file that cannot be opened, fails and
    destroys the group.** -/
theorem missing_iplist_destroys :
    (initStorage (fun _ => true) true [⟨[103], none⟩] oneGroup).1 = .failed ⟨[103], none⟩ ∧
      (initStorage (fun _ => true) true [⟨[103], none⟩] oneGroup).2.view [103] ≠
        oneGroup.view [103] ∧
      (initStorage (fun _ => true) true [⟨[103], some none⟩] oneGroup).1 =
        .failed ⟨[103], some none⟩ ∧
      (initStorage (fun _ => true) true [⟨[103], some none⟩] oneGroup).2.view [103] ≠
        oneGroup.view [103] := by
  have hne : ∀ v w : GroupView, v.groups ≠ w.groups → v ≠ w := fun v w h he => h (by rw [he])
  exact ⟨rfl, hne _ _ (by decide +kernel), rfl, hne _ _ (by decide +kernel)⟩

end Pfs
