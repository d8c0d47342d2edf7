/-
  The statistics of a domain and the domain chosen for a group (network/N/pfs_sig_base.c,
  the policy of network/pfs_init.c).

  `check_more_half_online` takes the extrema of what the connected members have reported, together
  with what the domain's record already holds. The record is zero when the domain is created, so
  its load and its number of tasks stay zero and its free space never falls.

  The configured policy is divided by POLICY_MAX: every valid one becomes POLICY_DISKFREE.

  Main results: `stats_reflect`, `load_of_run`, `choice_optimal`.
-/
import Pfs.Lib.Select
import Pfs.LoadReport

namespace Pfs

open Lib List

/-! ## 1. Statistics -/

/-- `t_pfs_domain` with its statistics. -/
structure StatDomain extends Domain where
  diskfree : UInt32
  taskcount : UInt32
  load : UInt32

/-- A domain as `init_group` enters it. -/
def Domain.fresh (d : Domain) : StatDomain := { d with diskfree := 0, taskcount := 0, load := 0 }

/-- `pfs_fcs_peer` in `online_list`. -/
structure StatPeer where
  fd : Nat
  ip : UInt32
  info : LoadInfo
  deriving DecidableEq

/-- `find_ip_stat`; the connection made last comes first. -/
def findPeer (online : List StatPeer) (ip : UInt32) : Option StatPeer :=
  online.find? fun p => p.ip == ip

/-- `pfs_max` -/
def pfsMax : UInt32 → UInt32 → UInt32 := keep fun a b => decide (a < b)

/-- `pfs_min` -/
def pfsMin : UInt32 → UInt32 → UInt32 := keep fun a b => decide (b < a)

/-- One round of the loop of `check_more_half_online`. -/
def poll (online : List StatPeer) (r : Nat × StatDomain) (p : UInt32 × List UInt8) :
    Nat × StatDomain :=
  match findPeer online p.1 with
  | none => r
  | some peer =>
    (r.1 + 1,
      { r.2 with
        diskfree := pfsMax r.2.diskfree peer.info.diskfree
        load := pfsMin r.2.load peer.info.load
        taskcount := pfsMin r.2.taskcount peer.info.taskcount })

/-- `check_more_half_online`: whether it returns 0, and the domain it leaves. -/
def checkMoreHalfOnline (online : List StatPeer) (d : StatDomain) : Bool × StatDomain :=
  let r := d.ips.foldl (poll online) (0, d)
  (decide (d.ips.length ≤ r.1 * 2), r.2)

/-- What the connected members of a domain have in their records. -/
def infos (online : List StatPeer) (d : Domain) : List LoadInfo :=
  d.ips.filterMap fun p => (findPeer online p.1).map StatPeer.info

def HalfOnline (online : List StatPeer) (d : Domain) : Prop :=
  d.ips.length ≤ (infos online d).length * 2

instance (online : List StatPeer) (d : Domain) : Decidable (HalfOnline online d) :=
  inferInstanceAs (Decidable (_ ≤ _))

/-- The statistics are the extrema of the values `rs`. -/
structure StatDomain.Reflects (d : StatDomain) (rs : List LoadInfo) : Prop where
  diskfree_mem : d.diskfree ∈ rs.map LoadInfo.diskfree
  diskfree_max : ∀ v ∈ rs.map LoadInfo.diskfree, v ≤ d.diskfree
  load_mem : d.load ∈ rs.map LoadInfo.load
  load_min : ∀ v ∈ rs.map LoadInfo.load, d.load ≤ v
  taskcount_mem : d.taskcount ∈ rs.map LoadInfo.taskcount
  taskcount_min : ∀ v ∈ rs.map LoadInfo.taskcount, d.taskcount ≤ v

/-- What the record holds is no better than some value of each kind. -/
def StatDomain.Outdone (d : StatDomain) (rs : List LoadInfo) : Prop :=
  (∃ v ∈ rs.map LoadInfo.diskfree, d.diskfree ≤ v) ∧ (∃ v ∈ rs.map LoadInfo.load, v ≤ d.load) ∧
    ∃ v ∈ rs.map LoadInfo.taskcount, v ≤ d.taskcount

section Evaluation

variable {online : List StatPeer}

theorem prefers_max : Prefers (fun a b : UInt32 => a ≤ b) fun a b => decide (a < b) where
  refl := UInt32.le_refl
  trans := fun _ _ _ => UInt32.le_trans
  up := fun _ _ h => UInt32.le_of_lt (of_decide_eq_true h)
  down := fun _ _ h => UInt32.not_lt.mp (of_decide_eq_false h)

theorem prefers_min : Prefers (fun a b : UInt32 => b ≤ a) fun a b => decide (b < a) where
  refl := UInt32.le_refl
  trans := fun _ _ _ hab hbc => UInt32.le_trans hbc hab
  up := fun _ _ h => UInt32.le_of_lt (of_decide_eq_true h)
  down := fun _ _ h => UInt32.not_lt.mp (of_decide_eq_false h)

theorem foldl_poll (ps : List (UInt32 × List UInt8)) (n : Nat) (d : StatDomain) :
    let rs := ps.filterMap fun p => (findPeer online p.1).map StatPeer.info
    ps.foldl (poll online) (n, d) =
      (n + rs.length,
        { d with
          diskfree := (rs.map LoadInfo.diskfree).foldl pfsMax d.diskfree
          load := (rs.map LoadInfo.load).foldl pfsMin d.load
          taskcount := (rs.map LoadInfo.taskcount).foldl pfsMin d.taskcount }) := by
  induction ps generalizing n d with
  | nil => rfl
  | cons p ps ih =>
    simp only [foldl_cons]
    cases hp : findPeer online p.1 with
    | none =>
      have hpoll : poll online (n, d) p = (n, d) := by
        unfold poll
        rw [hp]
      rw [hpoll, ih]
      simp only [filterMap_cons, hp, Option.map_none]
    | some peer =>
      have hpoll : poll online (n, d) p = (n + 1, { d with
          diskfree := pfsMax d.diskfree peer.info.diskfree
          load := pfsMin d.load peer.info.load
          taskcount := pfsMin d.taskcount peer.info.taskcount }) := by
        unfold poll
        rw [hp]
      rw [hpoll, ih]
      simp only [filterMap_cons, hp, Option.map_some, map_cons, foldl_cons, length_cons]
      congr 1
      omega

theorem checkMoreHalfOnline_eq (online : List StatPeer) (d : StatDomain) :
    checkMoreHalfOnline online d =
      (decide (HalfOnline online d.toDomain),
        { d with
          diskfree := ((infos online d.toDomain).map LoadInfo.diskfree).foldl pfsMax d.diskfree
          load := ((infos online d.toDomain).map LoadInfo.load).foldl pfsMin d.load
          taskcount :=
            ((infos online d.toDomain).map LoadInfo.taskcount).foldl pfsMin d.taskcount }) := by
  have hfold := @foldl_poll online d.ips 0 d
  simp only at hfold
  rw [Nat.zero_add] at hfold
  unfold checkMoreHalfOnline HalfOnline infos
  simp only [hfold]
  rfl

theorem toDomain_check (online : List StatPeer) (d : StatDomain) :
    (checkMoreHalfOnline online d).2.toDomain = d.toDomain := by
  rw [checkMoreHalfOnline_eq]

/-- **An evaluation gives the extrema of the members' values exactly when the record holds nothing
    better.** -/
theorem reflects_iff (online : List StatPeer) (d : StatDomain) :
    (checkMoreHalfOnline online d).2.Reflects (infos online d.toDomain) ↔
      d.Outdone (infos online d.toDomain) := by
  rw [checkMoreHalfOnline_eq]
  generalize infos online d.toDomain = rs
  have hmax := foldl_keep_mem_iff prefers_max (fun _ _ => UInt32.le_antisymm) d.diskfree
    (rs.map LoadInfo.diskfree)
  have hload := foldl_keep_mem_iff prefers_min (fun _ _ h h' => UInt32.le_antisymm h' h) d.load
    (rs.map LoadInfo.load)
  have htask := foldl_keep_mem_iff prefers_min (fun _ _ h h' => UInt32.le_antisymm h' h) d.taskcount
    (rs.map LoadInfo.taskcount)
  constructor
  · intro h
    exact ⟨hmax.mp h.diskfree_mem, hload.mp h.load_mem, htask.mp h.taskcount_mem⟩
  · intro h
    exact ⟨hmax.mpr h.1, fun v hv => foldl_keep_le prefers_max _ hv, hload.mpr h.2.1,
      fun v hv => foldl_keep_le prefers_min _ hv, htask.mpr h.2.2,
      fun v hv => foldl_keep_le prefers_min _ hv⟩

end Evaluation

/-! ## 2. The domain of a group -/

def MAX_GROUP : Nat := 64

def POLICY_DISKFREE : UInt8 := 0
def POLICY_LOAD : UInt8 := 1
def POLICY_TASKCOUNT : UInt8 := 2
def POLICY_MAX : Int := 3

/-- `g_config.policy` in `reload_config`. -/
def reloadPolicy (taskPolicy : Int) : UInt8 := UInt8.ofInt (taskPolicy.tdiv POLICY_MAX)

/-- `sortdomain` -/
def sortdomain (policy : UInt8) (s1 s2 : StatDomain) : Bool :=
  if policy = POLICY_LOAD then decide (s2.load < s1.load)
  else if policy = POLICY_TASKCOUNT then decide (s2.taskcount < s1.taskcount)
  else decide (s1.diskfree < s2.diskfree)

/-- The loop of `update_group_domain`: the domains as they are left, and `ddomain`. -/
def scanDomains (policy : UInt8) (online : List StatPeer) :
    List StatDomain → Option StatDomain → List StatDomain × Option StatDomain
  | [], ddomain => ([], ddomain)
  | d :: ds, ddomain =>
    let r := checkMoreHalfOnline online d
    let x := scanDomains policy online ds
      (if r.1 then offer (sortdomain policy) ddomain r.2 else ddomain)
    (r.2 :: x.1, x.2)

/-- `group_array` with `bestdomain`: all MAX_GROUP entries, those without a name last. -/
abbrev Choices := List (List UInt8 × StatDomain)

/-- `group_array` and `bestdomain` at the start. -/
def noChoices : Choices := List.replicate MAX_GROUP ([], Domain.zero.fresh)

/-- Where both loops over `group_array` stop. -/
def entryFor (name : List UInt8) (c : List UInt8 × StatDomain) : Bool := c.1 == [] || c.1 == name

/-- The end of `update_group_domain`: the first entry that is free or the group's. -/
def storeChoice (name : List UInt8) (d : StatDomain) (choices : Choices) : Choices :=
  match updateFirst (entryFor name) (fun _ => ((), (name, d))) choices with
  | none => choices
  | some r => r.2

/-- `get_domain_by_group` -/
def getDomainByGroup (name : List UInt8) (choices : Choices) : Option StatDomain :=
  (choices.find? (entryFor name)).bind fun c => if c.1 = [] then none else some c.2

/-- A group of `grouplist`. -/
structure StatGroup where
  name : List UInt8
  domains : List StatDomain

/-- `update_group_domain`: whether it returns 0, the group and the stored choices. -/
def updateGroupDomain (policy : UInt8) (online : List StatPeer) (g : StatGroup)
    (choices : Choices) : Bool × StatGroup × Choices :=
  let r := scanDomains policy online g.domains none
  match r.2 with
  | none => (false, { g with domains := r.1 }, choices)
  | some d => (true, { g with domains := r.1 }, storeChoice g.name d choices)

section Choice

variable {policy : UInt8} {online : List StatPeer}

theorem scanDomains_fst (policy : UInt8) (online : List StatPeer) (ds : List StatDomain)
    (best : Option StatDomain) :
    (scanDomains policy online ds best).1 = ds.map fun d => (checkMoreHalfOnline online d).2 := by
  induction ds generalizing best with
  | nil => rfl
  | cons d ds ih => simp only [scanDomains, ih, map_cons]

/-- The candidate is the best of the domains, as they are left, that have half of their members. -/
theorem scanDomains_snd (policy : UInt8) (online : List StatPeer) (ds : List StatDomain)
    (best : Option StatDomain) :
    (scanDomains policy online ds best).2 =
      (((scanDomains policy online ds best).1).filter
        fun d => decide (HalfOnline online d.toDomain)).foldl (offer (sortdomain policy)) best := by
  induction ds generalizing best with
  | nil => rfl
  | cons d ds ih =>
    have hhalf : (checkMoreHalfOnline online d).1 =
        decide (HalfOnline online (checkMoreHalfOnline online d).2.toDomain) := by
      rw [toDomain_check, checkMoreHalfOnline_eq]
    simp only [scanDomains]
    rw [ih, filter_cons, ← hhalf]
    cases (checkMoreHalfOnline online d).1 with
    | true => simp only [if_true, foldl_cons]
    | false => simp only [Bool.false_eq_true, if_false]

theorem prefers_diskfree : Prefers (fun a b : StatDomain => a.diskfree ≤ b.diskfree)
    (sortdomain POLICY_DISKFREE) where
  refl := fun _ => UInt32.le_refl _
  trans := fun _ _ _ => UInt32.le_trans
  up := fun _ _ h => UInt32.le_of_lt (of_decide_eq_true h)
  down := fun _ _ h => UInt32.not_lt.mp (of_decide_eq_false h)

/-- The loops over `group_array` find an entry for the group. -/
def HasEntry (name : List UInt8) (choices : Choices) : Prop :=
  name ≠ [] ∧ ∃ c ∈ choices, entryFor name c = true

theorem getDomainByGroup_store {name : List UInt8} {choices : Choices} (d : StatDomain)
    (hentry : HasEntry name choices) :
    getDomainByGroup name (storeChoice name d choices) = some d := by
  have hsome : (updateFirst (entryFor name) (fun _ => ((), (name, d))) choices).isSome = true := by
    rw [updateFirst_isSome]
    exact any_eq_true.mpr hentry.2
  obtain ⟨r, hr⟩ := Option.isSome_iff_exists.mp hsome
  have hfind : r.2.find? (entryFor name) = some (name, d) :=
    find?_updateFirst (by simp [entryFor]) (fun _ => rfl) hr
  unfold storeChoice getDomainByGroup
  rw [hr]
  simp only [hfind, Option.bind_some]
  exact if_neg hentry.1

/-- A group without a name, or one that finds the table full, has no domain afterwards. -/
theorem hasEntry_of_getDomainByGroup {name : List UInt8} {choices : Choices} {d e : StatDomain}
    (h : getDomainByGroup name (storeChoice name d choices) = some e) : HasEntry name choices := by
  obtain ⟨c, hc, hnamed⟩ := Option.bind_eq_some_iff.mp h
  have hfound := find?_some hc
  constructor
  · rintro rfl
    have hempty : c.1 = [] := by simpa [entryFor] using hfound
    rw [if_pos hempty] at hnamed
    cases hnamed
  · by_contra hfull
    have hnone : updateFirst (entryFor name) (fun _ => ((), (name, d))) choices = none := by
      rw [← Option.not_isSome_iff_eq_none, updateFirst_isSome, any_eq_true]
      exact hfull
    unfold storeChoice at hc
    rw [hnone] at hc
    exact hfull ⟨c, mem_of_find?_eq_some hc, hfound⟩

theorem candidates_eq_nil (policy : UInt8) {g : StatGroup} :
    ((scanDomains policy online g.domains none).1.filter
      fun d => decide (HalfOnline online d.toDomain)) = [] ↔
      ∀ d ∈ g.domains, ¬ HalfOnline online d.toDomain := by
  rw [scanDomains_fst, filter_eq_nil_iff, forall_mem_map]
  simp only [toDomain_check, decide_eq_true_eq]

/-- What is asked of `update_group_domain` under a configured policy: with a domain that has half of
    its members, the stored one has them, too, and is the best of those; without one, -1 is returned
    and the choices stay. -/
def OptimalChoice (taskPolicy : Int) (online : List StatPeer) (g : StatGroup) (choices : Choices) :
    Prop :=
  let r := updateGroupDomain (reloadPolicy taskPolicy) online g choices
  let cands := r.2.1.domains.filter fun d => decide (HalfOnline online d.toDomain)
  (cands ≠ [] → r.1 = true ∧ ∃ d ∈ cands, getDomainByGroup g.name r.2.2 = some d ∧
    ∀ e ∈ cands, (taskPolicy = 0 → e.diskfree ≤ d.diskfree) ∧ (taskPolicy = 1 → d.load ≤ e.load) ∧
      (taskPolicy = 2 → d.taskcount ≤ e.taskcount)) ∧
  (cands = [] → r.1 = false ∧ r.2.2 = choices)

/-- With the policy diskfree, the domain that is stored is optimal exactly if there is an entry to
    store it in, or nothing to store. -/
theorem optimalChoice_diskfree (online : List StatPeer) (g : StatGroup) (choices : Choices) :
    OptimalChoice 0 online g choices ↔
      (∀ d ∈ g.domains, ¬ HalfOnline online d.toDomain) ∨ HasEntry g.name choices := by
  have hscan := scanDomains_snd POLICY_DISKFREE online g.domains none
  rw [← candidates_eq_nil POLICY_DISKFREE]
  unfold OptimalChoice updateGroupDomain
  rw [show reloadPolicy 0 = POLICY_DISKFREE from rfl]
  simp only
  obtain ⟨hnil, hnone⟩ | ⟨d, hd, hsome, hbest⟩ := foldl_offer prefers_diskfree
    ((scanDomains POLICY_DISKFREE online g.domains none).1.filter
      fun d => decide (HalfOnline online d.toDomain))
  · rw [hnone] at hscan
    rw [hscan]
    exact ⟨fun _ => .inl hnil, fun _ => ⟨fun hne => absurd hnil hne, fun _ => ⟨rfl, rfl⟩⟩⟩
  rw [hsome] at hscan
  rw [hscan]
  have hne := ne_nil_of_mem hd
  constructor
  · intro h
    obtain ⟨-, e, -, hget, -⟩ := h.1 hne
    exact .inr (hasEntry_of_getDomainByGroup hget)
  · intro h
    refine ⟨fun _ => ⟨rfl, d, hd, ?_, fun e he => ?_⟩, fun hnil => absurd hnil hne⟩
    · exact getDomainByGroup_store d (h.resolve_left hne)
    · exact ⟨fun _ => hbest e he, fun h => absurd h (by decide), fun h => absurd h (by decide)⟩

end Choice

def loadedDomain (name : List UInt8) (ip diskfree load taskcount : UInt32) : StatDomain :=
  { domain := name, ips := [(ip, [])], index := 0, sip_le := by simp, diskfree := diskfree,
    load := load, taskcount := taskcount }

/-- Two domains: "a" has more free space, "b" less load and fewer tasks. -/
def twoDomains : StatGroup := ⟨[103], [loadedDomain [97] 1 9 8 8, loadedDomain [98] 2 5 1 1]⟩

def twoOnline : List StatPeer := [⟨5, 1, ⟨8, 8, 9⟩⟩, ⟨6, 2, ⟨1, 1, 5⟩⟩]

theorem hasEntry_twoDomains : HasEntry twoDomains.name noChoices :=
  ⟨by decide, ([], Domain.zero.fresh), mem_cons_self, rfl⟩

/-- With another policy, "a" is stored all the same. -/
theorem twoDomains_not_optimal {p : Int} (hp : p = 1 ∨ p = 2) :
    ¬ OptimalChoice p twoOnline twoDomains noChoices := by
  have hpolicy : reloadPolicy p = POLICY_DISKFREE := by
    obtain rfl | rfl := hp
    · rfl
    · rfl
  have hcands :
      ((updateGroupDomain POLICY_DISKFREE twoOnline twoDomains noChoices).2.1.domains.filter
        fun d => decide (HalfOnline twoOnline d.toDomain)) = twoDomains.domains := rfl
  intro h
  unfold OptimalChoice at h
  simp only [hpolicy, hcands] at h
  obtain ⟨-, d, -, hget, hbest⟩ := h.1 (cons_ne_nil _ _)
  cases hget
  obtain ⟨-, hload, htask⟩ := hbest (loadedDomain [98] 2 5 1 1) (mem_cons_of_mem _ mem_cons_self)
  obtain hp | hp := hp
  · exact absurd (hload hp) (by decide +kernel)
  · exact absurd (htask hp) (by decide +kernel)

/-- **The domain that is stored for a group is optimal with the policy diskfree**, for any domains,
    statistics and connections, exactly if the group has an entry or no domain is a candidate; **of
    the three policies it is the only one** that is followed for every group with an entry. -/
theorem choice_optimal (online : List StatPeer) (g : StatGroup) (choices : Choices) :
    (OptimalChoice 0 online g choices ↔
      (∀ d ∈ g.domains, ¬ HalfOnline online d.toDomain) ∨ HasEntry g.name choices) ∧
    ∀ taskPolicy ∈ ([0, 1, 2] : List Int),
      (∀ (online : List StatPeer) (g : StatGroup) (choices : Choices), HasEntry g.name choices →
        OptimalChoice taskPolicy online g choices) ↔ taskPolicy = 0 := by
  refine ⟨optimalChoice_diskfree online g choices, fun taskPolicy hmem => ⟨fun h => ?_, ?_⟩⟩
  · by_contra hne
    have hp : taskPolicy = 1 ∨ taskPolicy = 2 := by simpa [hne] using hmem
    exact twoDomains_not_optimal hp (h twoOnline twoDomains noChoices hasEntry_twoDomains)
  · rintro rfl online g choices hentry
    exact (optimalChoice_diskfree online g choices).mpr (.inr hentry)

theorem choice_optimal_two : HalfOnline twoOnline (loadedDomain [97] 1 9 8 8).toDomain ∧
    OptimalChoice 0 twoOnline twoDomains noChoices :=
  ⟨by decide, (choice_optimal twoOnline twoDomains noChoices).1.mpr (.inr hasEntry_twoDomains)⟩

/-- **With the policy load or taskcount, the domain with more free space is stored all the
    same.** -/
theorem choice_ignores_policy : ¬ OptimalChoice 1 twoOnline twoDomains noChoices ∧
    ¬ OptimalChoice 2 twoOnline twoDomains noChoices :=
  ⟨twoDomains_not_optimal (.inl rfl), twoDomains_not_optimal (.inr rfl)⟩

/-! ## 3. Runs -/

/-- The nameserver as far as the statistics go. `reported` and `evals` are marks: what every address
    has reported last, and the evaluations made: the domain as it was left, whether a member was
    connected, and what the connected members had reported last. -/
structure StatSt where
  online : List StatPeer
  groups : List StatGroup
  choices : Choices
  last : Int
  reported : UInt32 → Option LoadInfo
  evals : List (StatDomain × Bool × List LoadInfo)

/-- Connections, reports and evaluations. -/
inductive StatAct where
  /-- A storage connects. -/
  | connect (fd : Nat) (ip : UInt32)
  /-- The values of a LOADINFO_REQ are entered. -/
  | report (fd : Nat) (info : LoadInfo)
  | disconnect (fd : Nat)
  /-- `update_sort_policy`; `lock` is whether it gets the configuration's lock. -/
  | update (now : Int) (lock : Bool)

/-- What the connected members of a domain have reported last. -/
def StatSt.reports (s : StatSt) (d : Domain) : List LoadInfo :=
  d.ips.filterMap fun p => (findPeer s.online p.1).bind fun _ => s.reported p.1

def StatSt.mark (s : StatSt) (d : StatDomain) : StatDomain × Bool × List LoadInfo :=
  ((checkMoreHalfOnline s.online d).2, !(infos s.online d.toDomain).isEmpty, s.reports d.toDomain)

/-- The loop of `update_sort_policy`: whether some group failed, the groups, the choices. -/
def updateGroups (policy : UInt8) (online : List StatPeer) :
    List StatGroup → Choices → Bool × List StatGroup × Choices
  | [], choices => (false, [], choices)
  | g :: gs, choices =>
    let r := updateGroupDomain policy online g choices
    let x := updateGroups policy online gs r.2.2
    (!r.1 || x.1, r.2.1 :: x.2.1, x.2.2)

/-- A round of `update_sort_policy`. -/
def updateSortPolicy (policy : UInt8) (s : StatSt) (now : Int) : StatSt :=
  let r := updateGroups policy s.online s.groups s.choices
  { s with
    groups := r.2.1
    choices := r.2.2
    last := if r.1 then 0 else now
    evals := (s.groups.flatMap StatGroup.domains).map s.mark ++ s.evals }

/-- One step. Without the lock, the nameserver stops. -/
def statNext (policy : UInt8) (s : StatSt) : StatAct → Option StatSt
  | .connect fd ip => some { s with online := ⟨fd, ip, ⟨0, 0, 0⟩⟩ :: s.online }
  | .report fd info =>
    match s.online.find? fun p => p.fd == fd with
    | none => none
    | some peer =>
      some { s with
        online := s.online.map fun p => if p.fd = fd then { p with info := info } else p
        reported := fun ip => if ip = peer.ip then some info else s.reported ip }
  | .disconnect fd => some { s with online := s.online.filter fun p => p.fd != fd }
  | .update now lock =>
    if now - s.last < 600 then some s
    else if lock = false then none
    else some (updateSortPolicy policy s now)

/-- The nameserver at its start, with the groups of the configuration. -/
def StatSt.init (groups : List (List UInt8 × List Domain)) : StatSt where
  online := []
  groups := groups.map fun g => ⟨g.1, g.2.map Domain.fresh⟩
  choices := noChoices
  last := 0
  reported := fun _ => none
  evals := []

def StatSt.domains (s : StatSt) : List StatDomain := s.groups.flatMap StatGroup.domains

/-- The records of the connected members of a domain are what they have reported last. -/
def StatSt.Current (s : StatSt) (d : Domain) : Prop :=
  ∀ p ∈ d.ips, ((findPeer s.online p.1).bind fun _ => s.reported p.1) =
    (findPeer s.online p.1).map StatPeer.info

/-- A round is made when, for every domain with a connected member, the members have reported since
    they connected and some of them report values at least as good as the recorded ones. -/
def StatsFresh (s : StatSt) : StatAct → Prop
  | .update _ _ => ∀ d ∈ s.domains, infos s.online d.toDomain ≠ [] →
      s.Current d.toDomain ∧ d.Outdone (infos s.online d.toDomain)
  | _ => True

instance (s : StatSt) (a : StatAct) : Decidable (StatsFresh s a) := by
  cases a <;> unfold StatsFresh StatSt.Current StatDomain.Outdone <;> infer_instance

/-- The evaluation that is marked gave the extrema of what the connected members reported. -/
def GoodMark (e : StatDomain × Bool × List LoadInfo) : Prop := e.2.1 = true → e.1.Reflects e.2.2

section Runs

variable {policy : UInt8} {s s' : StatSt} {a : StatAct}

theorem reports_eq {d : Domain} (h : s.Current d) : s.reports d = infos s.online d :=
  filterMap_congr h

theorem statNext_cases (h : statNext policy s a = some s') :
    (s'.groups = s.groups ∧ s'.evals = s.evals) ∨
      ∃ now, a = .update now true ∧ s' = updateSortPolicy policy s now := by
  cases a with
  | connect fd ip =>
    cases h
    exact .inl ⟨rfl, rfl⟩
  | report fd info =>
    simp only [statNext] at h
    split at h
    · cases h
    · cases h
      exact .inl ⟨rfl, rfl⟩
  | disconnect fd =>
    cases h
    exact .inl ⟨rfl, rfl⟩
  | update now lock =>
    simp only [statNext] at h
    split_ifs at h with hnow hlock
    · cases h
      exact .inl ⟨rfl, rfl⟩
    · cases h
      rw [Bool.not_eq_false] at hlock
      exact .inr ⟨now, by rw [hlock], rfl⟩

theorem updateGroupDomain_domains (policy : UInt8) (online : List StatPeer) (g : StatGroup)
    (choices : Choices) : (updateGroupDomain policy online g choices).2.1.domains =
      g.domains.map fun d => (checkMoreHalfOnline online d).2 := by
  rw [← scanDomains_fst policy online g.domains none]
  unfold updateGroupDomain
  simp only
  split
  · rfl
  · rfl

theorem domains_updateGroups (policy : UInt8) (online : List StatPeer) (gs : List StatGroup)
    (choices : Choices) : (updateGroups policy online gs choices).2.1.flatMap StatGroup.domains =
      (gs.flatMap StatGroup.domains).map fun d => (checkMoreHalfOnline online d).2 := by
  induction gs generalizing choices with
  | nil => rfl
  | cons g gs ih =>
    simp only [updateGroups, flatMap_cons, map_append]
    rw [updateGroupDomain_domains, ih]

theorem goodMark_of_fresh {d : StatDomain} (h : infos s.online d.toDomain ≠ [] →
    s.Current d.toDomain ∧ d.Outdone (infos s.online d.toDomain)) : GoodMark (s.mark d) := by
  intro hon
  have hne : infos s.online d.toDomain ≠ [] := by
    intro hnil
    simp [StatSt.mark, hnil] at hon
  obtain ⟨hcur, hout⟩ := h hne
  unfold StatSt.mark
  rw [reports_eq hcur]
  exact (reflects_iff s.online d).mpr hout

/-- **The statistics of a domain reflect the present**, in every run whose rounds find reports that
    are at least as good as the recorded values. -/
theorem stats_reflect {groups : List (List UInt8 × List Domain)}
    (h : Run (statNext policy) StatsFresh (StatSt.init groups) s) :
    ∀ e ∈ s.evals, e.2.1 = true → e.1.Reflects e.2.2 := by
  refine Run.inv (I := fun s => ∀ e ∈ s.evals, GoodMark e) (fun e he => by cases he) ?_ h
  intro s s' a hI hok hs
  obtain ⟨-, hevals⟩ | ⟨now, rfl, rfl⟩ := statNext_cases hs
  · rw [hevals]
    exact hI
  intro e he
  obtain he | he := mem_append.mp he
  · obtain ⟨d, hd, rfl⟩ := mem_map.mp he
    exact goodMark_of_fresh (hok d hd)
  · exact hI e he

theorem foldl_pfsMin_zero (l : List UInt32) : l.foldl pfsMin 0 = 0 := by
  have h := foldl_keep_start prefers_min (0 : UInt32) l
  exact UInt32.le_antisymm h (UInt32.zero_le)

/-- **The recorded load and number of tasks are zero in every run**: the extrema are taken with the
    zeros of a new record. -/
theorem load_of_run {groups : List (List UInt8 × List Domain)}
    (h : Reach (statNext policy) (StatSt.init groups) s) :
    ∀ d ∈ s.domains, d.load = 0 ∧ d.taskcount = 0 := by
  refine Run.inv (I := fun s => ∀ d ∈ s.domains, d.load = 0 ∧ d.taskcount = 0) ?_ ?_ h
  · intro d hd
    unfold StatSt.domains StatSt.init at hd
    simp only [flatMap_map, mem_flatMap, mem_map] at hd
    obtain ⟨-, -, d₀, -, rfl⟩ := hd
    exact ⟨rfl, rfl⟩
  · intro s s' a hI _ hs
    obtain ⟨hgroups, -⟩ | ⟨now, -, rfl⟩ := statNext_cases hs
    · unfold StatSt.domains
      rw [hgroups]
      exact hI
    intro d hd
    have hd : d ∈ (updateGroups policy s.online s.groups s.choices).2.1.flatMap
        StatGroup.domains := hd
    rw [domains_updateGroups] at hd
    obtain ⟨d₀, hd₀, rfl⟩ := mem_map.mp hd
    obtain ⟨hload, htask⟩ := hI d₀ hd₀
    rw [checkMoreHalfOnline_eq]
    simp only [hload, htask, foldl_pfsMin_zero, and_self]

end Runs

/-! ### One storage

The domain "a" of the group "g" has the one address 1. -/

def oneDomain : Domain := ⟨[97], [(1, [49])], 0, by decide⟩

/-- The storage connects, reports, and a round is made. -/
def oneRound (info : LoadInfo) : List StatAct :=
  [.connect 5 1, .report 5 info, .update 600 true]

def oneRoundEnd (info : LoadInfo) : StatSt :=
  (exec (statNext POLICY_DISKFREE) (StatSt.init [([103], [oneDomain])]) (oneRound info)).getD
    (StatSt.init [])

theorem stats_reflect_idle :
    (∀ e ∈ (oneRoundEnd ⟨0, 0, 7⟩).evals, e.2.1 = true → e.1.Reflects e.2.2) ∧
      (oneRoundEnd ⟨0, 0, 7⟩).evals.map (fun e => (e.2, e.1.diskfree)) =
        [((true, [⟨0, 0, 7⟩]), 7)] :=
  ⟨stats_reflect (run_of_exec (oneRound ⟨0, 0, 7⟩) .start (by decide +kernel) rfl),
    by decide +kernel⟩

theorem load_of_run_round : (oneRoundEnd ⟨5, 3, 7⟩).domains ≠ [] ∧
    ∀ d ∈ (oneRoundEnd ⟨5, 3, 7⟩).domains, d.load = 0 ∧ d.taskcount = 0 :=
  ⟨by decide +kernel, load_of_run (@reach_of_exec _ _ _ _ _ _ (oneRound ⟨5, 3, 7⟩) .start rfl)⟩

/-- **A storage that reports the load 5 is recorded with the load 0.** -/
theorem load_not_reflected :
    Reach (statNext POLICY_DISKFREE) (StatSt.init [([103], [oneDomain])])
        (oneRoundEnd ⟨5, 3, 7⟩) ∧
      ∃ e ∈ (oneRoundEnd ⟨5, 3, 7⟩).evals, e.2 = (true, [⟨5, 3, 7⟩]) ∧ e.1.load = 0 ∧
        ¬ e.1.Reflects e.2.2 := by
  refine ⟨@reach_of_exec _ _ _ _ _ _ (oneRound ⟨5, 3, 7⟩) .start rfl, _, mem_cons_self,
    by decide +kernel, by decide +kernel, fun h => ?_⟩
  exact absurd h.load_mem (by decide +kernel)

end Pfs
