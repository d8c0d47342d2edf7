/-
  The domain chosen for each group, over runs: `update_group_domain` stores it in
  `group_array` and `bestdomain`, and `get_domain_by_group` finds it there (`DomainStats`).

  A request looks the group up, and `get_valid_ip_4_up` then moves the index of the record in place:
  the domain stays the same. A request without a group does that to `bestdomain[0]`.

  Main result: `groups_keep_choices`.
-/
import Pfs.DomainStats
import Pfs.Lib.NameTable

namespace Pfs

open Lib List

variable (ns : NsConfig)

/-! ## 1. Runs -/

/-- `get_valid_ip_4_up` on the record of a group. -/
def spin (online : UInt32 → Bool) (d : StatDomain) : StatDomain :=
  { d with toDomain := (getValidIp4Up ns online d.toDomain).2 }

/-- `get_domain_by_group` in `get_dstip_group`, or `bestdomain[0]` where no group is given: the
    record, and the table once a storage has been selected. -/
def selectGroup (online : UInt32 → Bool) (name : List UInt8) (choices : Choices) :
    Option StatDomain × Choices :=
  if name = [] then
    (choices.head?.map Prod.snd, choices.modifyHead fun c => (c.1, spin ns online c.2))
  else
    (getDomainByGroup name choices,
      choices.modify (choices.findIdx (entryFor name)) fun c =>
        if c.1 = [] then c else (c.1, spin ns online c.2))

/-- An evaluation of the policy, or a lookup of a group. -/
inductive ChoiceAct where
  | update (policy : UInt8) (online : List StatPeer) (g : StatGroup)
  | lookup (online : UInt32 → Bool) (name : List UInt8)

def choiceStep (choices : Choices) : ChoiceAct → Choices
  | .update policy online g => (updateGroupDomain policy online g choices).2.2
  | .lookup online name => (selectGroup ns online name choices).2

/-- The names of the groups that are updated. -/
def updated (acts : List ChoiceAct) : List (List UInt8) :=
  acts.filterMap fun
    | .update _ _ g => some g.name
    | .lookup _ _ => none

/-- The domain that is chosen, for a group: what was chosen before, unless this is an update of the
    group that finds a domain. -/
def ChoiceAct.choose (m : List UInt8 → Option (List UInt8)) :
    ChoiceAct → List UInt8 → Option (List UInt8)
  | .update policy online g =>
    match (scanDomains policy online g.domains none).2 with
    | none => m
    | some d => Function.update m g.name (some d.domain)
  | .lookup _ _ => m

/-- The used slots of `group_array` are in front, and their names are different. -/
def UsedFront (choices : Choices) : Prop :=
  ∃ n, ((choices.take n).map Prod.fst).Nodup ∧ (∀ c ∈ choices.take n, c.1 ≠ []) ∧
    ∀ c ∈ choices.drop n, c.1 = []

/-! ## 2. The table -/

/-- The names of the groups, with those of their domains. -/
def view (choices : Choices) : List (List UInt8 × List UInt8) :=
  choices.map (Prod.map id fun d => d.domain)

section Table

variable {ns}

theorem getDomainByGroup_eq (name : List UInt8) (choices : Choices) :
    getDomainByGroup name choices = tableGet [] name choices := by
  unfold getDomainByGroup
  induction choices with
  | nil => rfl
  | cons c choices ih =>
    rw [tableGet]
    by_cases hfree : c.1 = []
    · rw [find?_cons_of_pos (by simp [entryFor, hfree]), Option.bind_some]
      simp [hfree]
    rw [if_neg hfree]
    by_cases hc : c.1 = name
    · rw [find?_cons_of_pos (by simp [entryFor, hc]), Option.bind_some, if_neg hfree, if_pos hc]
    · rw [find?_cons_of_neg (by simp [entryFor, hfree, hc]), if_neg hc]
      exact ih

theorem storeChoice_eq (name : List UInt8) (d : StatDomain) (choices : Choices) :
    storeChoice name d choices = tablePut [] name d choices := by
  induction choices with
  | nil => rfl
  | cons c choices ih =>
    rw [tablePut]
    by_cases hstop : c.1 = [] ∨ c.1 = name
    · have hentry : entryFor name c = true := by simpa [entryFor] using hstop
      rw [if_pos hstop, storeChoice, updateFirst, if_pos hentry]
    have hentry : ¬ entryFor name c = true := by simpa [entryFor] using hstop
    rw [if_neg hstop, ← ih, storeChoice, storeChoice, updateFirst, if_neg hentry]
    cases updateFirst (entryFor name) (fun _ => ((), (name, d))) choices <;> rfl

theorem updateGroupDomain_none {policy : UInt8} {online : List StatPeer} {g : StatGroup}
    (h : (scanDomains policy online g.domains none).2 = none) (choices : Choices) :
    (updateGroupDomain policy online g choices).2.2 = choices := by
  unfold updateGroupDomain
  simp only [h]

theorem updateGroupDomain_some {policy : UInt8} {online : List StatPeer} {g : StatGroup}
    {d : StatDomain}
    (h : (scanDomains policy online g.domains none).2 = some d) (choices : Choices) :
    (updateGroupDomain policy online g choices).2.2 = tablePut [] g.name d choices := by
  unfold updateGroupDomain
  simp only [h]
  exact storeChoice_eq _ _ _

theorem view_selectGroup (online : UInt32 → Bool) (name : List UInt8) (choices : Choices) :
    view (selectGroup ns online name choices).2 = view choices := by
  unfold selectGroup view
  split
  · cases choices with
    | nil => rfl
    | cons c choices => rfl
  simp only
  refine ext_getElem? fun i => ?_
  rw [getElem?_map, getElem?_map, getElem?_modify]
  cases choices[i]? with
  | none => rfl
  | some c =>
    simp only [Option.map_eq_map, Option.map_some]
    split
    · split <;> rfl
    · rfl

end Table

/-! ## 3. The invariant -/

/-- The table holds `m`, for the groups `names`. -/
structure ChoiceInv (names : List (List UInt8)) (m : List UInt8 → Option (List UInt8))
    (choices : Choices) : Prop where
  packed : Packed [] (view choices)
  length : choices.length = MAX_GROUP
  names : ∀ c ∈ view choices, c.1 ≠ [] → c.1 ∈ names
  answers : ∀ name, name ≠ [] → tableGet [] name (view choices) = m name

section Invariant

variable {ns} {names : List (List UInt8)} {m : List UInt8 → Option (List UInt8)} {choices : Choices}

theorem choiceInv_start (names : List (List UInt8)) :
    ChoiceInv names (fun _ => none) noChoices := by
  have hfree : ∀ c ∈ view noChoices, c.1 = [] := by
    intro c hc
    obtain ⟨d, hd, rfl⟩ := mem_map.mp hc
    rw [eq_of_mem_replicate hd]
    rfl
  exact ⟨.free hfree, length_replicate, fun c hc hne => absurd (hfree c hc) hne,
    fun name _ => tableGet_free hfree⟩

theorem view_tablePut (name : List UInt8) (d : StatDomain) (choices : Choices) :
    view (tablePut [] name d choices) = tablePut [] name d.domain (view choices) :=
  tablePut_map (fun d : StatDomain => d.domain) d choices

theorem ChoiceInv.put (h : ChoiceInv names m choices) {name : List UInt8} (hname : name ≠ [])
    (hmem : name ∈ names) (hmax : names.dedup.length ≤ MAX_GROUP) (d : StatDomain) :
    ChoiceInv names (Function.update m name (some d.domain)) (tablePut [] name d choices) := by
  have hlen : (view choices).length = MAX_GROUP := (length_map _).trans h.length
  have hroom := h.packed.room h.names (by rw [hlen]; exact hmax) hmem
  refine ⟨?_, (length_tablePut choices).trans h.length, fun c hc hne => ?_, fun x hx => ?_⟩
  · rw [view_tablePut]
    exact packed_put hname h.packed
  · rw [view_tablePut] at hc
    obtain rfl | hc := mem_tablePut hc
    · exact hmem
    · exact h.names c hc hne
  · rw [view_tablePut]
    by_cases he : x = name
    · subst he
      rw [tableGet_put_self hname hroom, Function.update_self]
    · rw [tableGet_put_of_ne hname he h.packed, h.answers x hx, Function.update_of_ne he]

theorem ChoiceInv.step (h : ChoiceInv names m choices) (hmax : names.dedup.length ≤ MAX_GROUP)
    (a : ChoiceAct) (hne : ∀ name ∈ updated [a], name ≠ []) (hsub : updated [a] ⊆ names) :
    ChoiceInv names (a.choose m) (choiceStep ns choices a) := by
  cases a with
  | update policy online g =>
    rw [choiceStep, ChoiceAct.choose]
    cases hscan : (scanDomains policy online g.domains none).2 with
    | none =>
      rw [updateGroupDomain_none hscan]
      exact h
    | some d =>
      rw [updateGroupDomain_some hscan]
      exact h.put (hne g.name mem_cons_self) (hsub mem_cons_self) hmax d
  | lookup online name =>
    have hview := @view_selectGroup ns online name choices
    rw [choiceStep, ChoiceAct.choose]
    refine ⟨hview ▸ h.packed, ?_, hview ▸ h.names, hview ▸ h.answers⟩
    have hlen := congrArg List.length hview
    rw [view, view, length_map, length_map] at hlen
    exact hlen.trans h.length

theorem updated_cons (a : ChoiceAct) (acts : List ChoiceAct) :
    updated (a :: acts) = updated [a] ++ updated acts := by
  rw [updated, updated, updated, ← filterMap_append]
  rfl

theorem ChoiceInv.run (hmax : names.dedup.length ≤ MAX_GROUP) (acts : List ChoiceAct) :
    ∀ {m : List UInt8 → Option (List UInt8)} {choices : Choices}, ChoiceInv names m choices →
      (∀ name ∈ updated acts, name ≠ []) → updated acts ⊆ names →
      ChoiceInv names (acts.foldl ChoiceAct.choose m) (acts.foldl (choiceStep ns) choices) := by
  induction acts with
  | nil => exact fun h _ _ => h
  | cons a acts ih =>
    intro m choices h hne hsub
    rw [updated_cons] at hne hsub
    obtain ⟨hne1, hne2⟩ := forall_mem_append.mp hne
    obtain ⟨hsub1, hsub2⟩ := append_subset.mp hsub
    exact ih (h.step hmax a hne1 hsub1) hne2 hsub2

end Invariant

/-- **Each group keeps its own choice**, in every run over at most MAX_GROUP groups: what is found
    for a group is the domain chosen for it last, no update of another group changes it, and the
    used slots are in front and have different names. -/
theorem groups_keep_choices (acts : List ChoiceAct) (hne : ∀ name ∈ updated acts, name ≠ [])
    (hmax : (updated acts).dedup.length ≤ MAX_GROUP) :
    (∀ name, name ≠ [] →
      (getDomainByGroup name (acts.foldl (choiceStep ns) noChoices)).map (fun d => d.domain) =
        acts.foldl ChoiceAct.choose (fun _ => none) name) ∧
      (∀ policy online g name, g.name ≠ [] → name ≠ g.name →
        getDomainByGroup name
            (updateGroupDomain policy online g (acts.foldl (choiceStep ns) noChoices)).2.2 =
          getDomainByGroup name (acts.foldl (choiceStep ns) noChoices)) ∧
      UsedFront (acts.foldl (choiceStep ns) noChoices) := by
  have hinv : ChoiceInv (updated acts) (acts.foldl ChoiceAct.choose fun _ => none)
      (acts.foldl (choiceStep ns) noChoices) :=
    ChoiceInv.run hmax acts (choiceInv_start _) hne (List.Subset.refl _)
  generalize acts.foldl (choiceStep ns) noChoices = choices at hinv ⊢
  have hpacked : Packed [] choices := packed_map (fun d : StatDomain => d.domain) hinv.packed
  refine ⟨fun name hname => ?_, fun policy online g name hg hname => ?_, hpacked.front⟩
  · rw [getDomainByGroup_eq, ← tableGet_map]
    exact hinv.answers name hname
  · rw [getDomainByGroup_eq, getDomainByGroup_eq]
    cases hscan : (scanDomains policy online g.domains none).2 with
    | none => rw [updateGroupDomain_none hscan]
    | some d =>
      rw [updateGroupDomain_some hscan]
      exact tableGet_put_of_ne hg hname hpacked

/-- A group gets a domain, a storage of it is asked for, and another group has none to choose. -/
def someChoices : List ChoiceAct :=
  [.update POLICY_DISKFREE twoOnline twoDomains, .lookup (fun _ => true) [103],
    .update POLICY_DISKFREE [] ⟨[104], twoDomains.domains⟩, .lookup (fun _ => true) []]

theorem groups_keep_someChoices :
    (getDomainByGroup [103] (someChoices.foldl (choiceStep emptyNs) noChoices)).map
        (fun d => d.domain) = some [97] ∧
      (getDomainByGroup [104] (someChoices.foldl (choiceStep emptyNs) noChoices)).map
        (fun d => d.domain) = none := by
  obtain ⟨hanswers, -, -⟩ := groups_keep_choices emptyNs someChoices (by decide) (by decide)
  constructor
  · rw [hanswers [103] (by decide)]
    decide
  · rw [hanswers [104] (by decide)]
    decide

end Pfs
