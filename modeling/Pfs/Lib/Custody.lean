/-
  Items that are linked in named queues and held in named slots.

  A depot has queues of items, slots that hold at most one item each, and data for every item. An
  item's location says in which queue it is linked and which slot holds it; that every item HAS a
  location (`Tracks`) already says that it is linked at most once and held by at most one slot.
  A policy `P` says which locations, with which data, are acceptable.

  The rules: an item is brought into focus from a queue, from a slot or by allocation, moved there,
  and given back with `Focus.keeps`. An operation on the item in focus needs no policy.
-/
import Mathlib.Data.List.Basic

namespace Pfs.Lib

open Function

/-- Where an item is: the queue it is linked in and the slot that holds it. -/
structure Loc (κ ω : Type) where
  link : Option κ
  owner : Option ω
  deriving DecidableEq, Repr

structure Depot (κ ω ι δ : Type) where
  queue : κ → List ι
  slot : ω → Option ι
  data : ι → δ

variable {κ ω ι δ : Type}

/-- `loc` says of every item where it is. -/
structure Tracks (d : Depot κ ω ι δ) (loc : ι → Loc κ ω) : Prop where
  nodup : ∀ q, (d.queue q).Nodup
  link : ∀ i q, i ∈ d.queue q ↔ (loc i).link = some q
  owner : ∀ i w, d.slot w = some i ↔ (loc i).owner = some w

/-- Every allocated item is in an acceptable place; the others are nowhere. -/
def Keeps (P : Loc κ ω → δ → Prop) (A : ι → Prop) (d : Depot κ ω ι δ) : Prop :=
  ∃ loc, Tracks d loc ∧ ∀ i, (A i → P (loc i) (d.data i)) ∧ (¬ A i → loc i = ⟨none, none⟩)

/-- Every allocated item but `i` is in an acceptable place; `i` is at `l`. -/
def Focus (P : Loc κ ω → δ → Prop) (A : ι → Prop) (d : Depot κ ω ι δ) (i : ι) (l : Loc κ ω) :
    Prop :=
  ∃ loc, Tracks d loc ∧ loc i = l ∧ A i ∧
    ∀ j, j ≠ i → (A j → P (loc j) (d.data j)) ∧ (¬ A j → loc j = ⟨none, none⟩)

namespace Depot

def setSlot [DecidableEq ω] (d : Depot κ ω ι δ) (w : ω) (v : Option ι) : Depot κ ω ι δ :=
  { d with slot := update d.slot w v }

def setData [DecidableEq ι] (d : Depot κ ω ι δ) (i : ι) (x : δ) : Depot κ ω ι δ :=
  { d with data := update d.data i x }

def unlink [DecidableEq ι] (d : Depot κ ω ι δ) (i : ι) : Depot κ ω ι δ :=
  { d with queue := fun q => (d.queue q).filter (· != i) }

/-- Out of every queue and to the end of `q`. -/
def put [DecidableEq ι] [DecidableEq κ] (d : Depot κ ω ι δ) (i : ι) (q : κ) : Depot κ ω ι δ :=
  { d with queue := update (d.unlink i).queue q ((d.unlink i).queue q ++ [i]) }

end Depot

/-! ## 1. Into focus and back -/

section Rules

variable {P : Loc κ ω → δ → Prop} {A : ι → Prop} {d : Depot κ ω ι δ} {i : ι} {l : Loc κ ω}

theorem Keeps.focus {loc : ι → Loc κ ω} (ht : Tracks d loc)
    (hall : ∀ i, (A i → P (loc i) (d.data i)) ∧ (¬ A i → loc i = ⟨none, none⟩))
    (hi : loc i ≠ ⟨none, none⟩) : Focus P A d i (loc i) ∧ P (loc i) (d.data i) := by
  have ha : A i := by
    by_contra hna
    exact hi ((hall i).2 hna)
  exact ⟨⟨loc, ht, rfl, ha, fun j _ => hall j⟩, (hall i).1 ha⟩

theorem Keeps.ofQueue {q : κ} (h : Keeps P A d) (hi : i ∈ d.queue q) :
    ∃ o, Focus P A d i ⟨some q, o⟩ ∧ P ⟨some q, o⟩ (d.data i) := by
  obtain ⟨loc, ht, hall⟩ := h
  have hl := (ht.link i q).mp hi
  have he : loc i = ⟨some q, (loc i).owner⟩ := by rw [← hl]
  have hne : loc i ≠ ⟨none, none⟩ := by
    intro h
    rw [h] at hl
    cases hl
  have hf := Keeps.focus ht hall hne
  rw [he] at hf
  exact ⟨_, hf⟩

theorem Keeps.ofSlot {w : ω} (h : Keeps P A d) (hi : d.slot w = some i) :
    ∃ q, Focus P A d i ⟨q, some w⟩ ∧ P ⟨q, some w⟩ (d.data i) := by
  obtain ⟨loc, ht, hall⟩ := h
  have ho := (ht.owner i w).mp hi
  have he : loc i = ⟨(loc i).link, some w⟩ := by rw [← ho]
  have hne : loc i ≠ ⟨none, none⟩ := by
    intro h
    rw [h] at ho
    cases ho
  have hf := Keeps.focus ht hall hne
  rw [he] at hf
  exact ⟨_, hf⟩

theorem Keeps.alloc (h : Keeps P A d) (hi : ¬ A i) :
    Focus P (fun j => A j ∨ j = i) d i ⟨none, none⟩ := by
  obtain ⟨loc, ht, hall⟩ := h
  refine ⟨loc, ht, (hall i).2 hi, .inr rfl, fun j hj => ⟨fun ha => ?_, fun hna => ?_⟩⟩
  · exact (hall j).1 (ha.resolve_right hj)
  · exact (hall j).2 fun ha => hna (.inl ha)

/-- The item in focus is given back. -/
theorem Focus.keeps (h : Focus P A d i l) (hp : P l (d.data i)) : Keeps P A d := by
  obtain ⟨loc, ht, rfl, ha, hall⟩ := h
  refine ⟨loc, ht, fun j => ?_⟩
  by_cases hj : j = i
  · subst hj
    exact ⟨fun _ => hp, fun hna => absurd ha hna⟩
  · exact hall j hj

theorem Focus.nodup (h : Focus P A d i l) (q : κ) : (d.queue q).Nodup := by
  obtain ⟨loc, ht, -⟩ := h
  exact ht.nodup q

theorem Focus.mem_iff {q : κ} (h : Focus P A d i l) : i ∈ d.queue q ↔ l.link = some q := by
  obtain ⟨loc, ht, rfl, -⟩ := h
  exact ht.link i q

theorem Focus.slot_eq {w : ω} (h : Focus P A d i l) : d.slot w = some i ↔ l.owner = some w := by
  obtain ⟨loc, ht, rfl, -⟩ := h
  exact ht.owner i w

/-! ## 2. Operations on the item in focus -/

theorem Focus.setData [DecidableEq ι] (h : Focus P A d i l) (x : δ) :
    Focus P A (d.setData i x) i l := by
  obtain ⟨loc, ht, hl, ha, hall⟩ := h
  refine ⟨loc, ⟨ht.nodup, ht.link, ht.owner⟩, hl, ha, fun j hj => ?_⟩
  have hd : (d.setData i x).data j = d.data j := update_of_ne hj _ _
  rw [hd]
  exact hall j hj

/-- **Only the item in focus moves**, to `l'`: nothing changes for the others. -/
theorem Focus.move [DecidableEq ι] {d' : Depot κ ω ι δ} (l' : Loc κ ω) (h : Focus P A d i l)
    (hdata : d'.data = d.data) (hnodup : ∀ q, (d'.queue q).Nodup)
    (hlink : ∀ q, i ∈ d'.queue q ↔ l'.link = some q)
    (howner : ∀ w, d'.slot w = some i ↔ l'.owner = some w)
    (hlinks : ∀ j q, j ≠ i → (j ∈ d'.queue q ↔ j ∈ d.queue q))
    (howners : ∀ j w, j ≠ i → (d'.slot w = some j ↔ d.slot w = some j)) : Focus P A d' i l' := by
  obtain ⟨loc, ht, -, ha, hall⟩ := h
  refine ⟨update loc i l', ⟨hnodup, fun j q => ?_, fun j w => ?_⟩, update_self _ _ _, ha,
    fun j hj => ?_⟩
  · by_cases hj : j = i
    · rw [hj, update_self, hlink q]
    · rw [update_of_ne hj, hlinks j q hj, ht.link j q]
  · by_cases hj : j = i
    · rw [hj, update_self, howner w]
    · rw [update_of_ne hj, howners j w hj, ht.owner j w]
  · rw [update_of_ne hj, hdata]
    exact hall j hj

theorem Focus.unlink [DecidableEq ι] (h : Focus P A d i l) :
    Focus P A (d.unlink i) i { l with link := none } := by
  refine h.move _ rfl (fun q => (h.nodup q).filter _) (fun q => ?_) (fun w => h.slot_eq)
    (fun j q hj => ?_) fun _ _ _ => Iff.rfl
  · simp [Depot.unlink]
  · simp [Depot.unlink, hj]

theorem Focus.put [DecidableEq ι] [DecidableEq κ] (h : Focus P A d i l) (q : κ) :
    Focus P A (d.put i q) i { l with link := some q } := by
  have hout : ∀ q, i ∉ (d.unlink i).queue q := by simp [Depot.unlink]
  refine h.unlink.move _ rfl (fun q' => ?_) (fun q' => ?_) (fun w => h.slot_eq) (fun j q' hj => ?_)
    fun _ _ _ => Iff.rfl
  · show (update (d.unlink i).queue q _ q').Nodup
    by_cases hq : q' = q
    · subst hq
      rw [update_self]
      exact List.nodup_append.mpr ⟨h.unlink.nodup q', (by simp), by
        rintro a ha b hb rfl
        rw [List.mem_singleton] at hb
        exact hout q' (hb ▸ ha)⟩
    · rw [update_of_ne hq]
      exact h.unlink.nodup q'
  · show i ∈ update (d.unlink i).queue q _ q' ↔ _
    by_cases hq : q' = q
    · simp [hq]
    · rw [update_of_ne hq]
      simp [hout q', Ne.symm hq]
  · show j ∈ update (d.unlink i).queue q _ q' ↔ _
    by_cases hq : q' = q
    · simp [hq, hj]
    · rw [update_of_ne hq]

theorem Focus.clear [DecidableEq ι] [DecidableEq ω] {w : ω} (h : Focus P A d i l)
    (hw : l.owner = some w) : Focus P A (d.setSlot w none) i { l with owner := none } := by
  refine h.move _ rfl h.nodup (fun q => h.mem_iff) (fun v => ?_) (fun _ _ _ => Iff.rfl)
    fun j v hj => ?_
  · show update d.slot w none v = some i ↔ _
    by_cases hv : v = w
    · simp [hv]
    · rw [update_of_ne hv, h.slot_eq, hw]
      simp [Ne.symm hv]
  · show update d.slot w none v = some j ↔ _
    by_cases hv : v = w
    · rw [hv, update_self, h.slot_eq.mpr hw]
      simp [Ne.symm hj]
    · rw [update_of_ne hv]

theorem Focus.drop [DecidableEq ι] [DecidableEq ω] {w : ω} (h : Focus P A d i l)
    (hl : l.owner ≠ some w)
    (hold : ∀ j, d.slot w = some j → ∀ q, P ⟨q, some w⟩ (d.data j) → P ⟨q, none⟩ (d.data j)) :
    Focus P A (d.setSlot w none) i l := by
  obtain ⟨loc, ht, rfl, ha, hall⟩ := h
  let loc' : ι → Loc κ ω := fun j =>
    if (loc j).owner = some w then { loc j with owner := none } else loc j
  refine ⟨loc', ⟨ht.nodup, fun j q => ?_, fun j v => ?_⟩, if_neg hl, ha, fun j hj => ?_⟩
  · rw [show (d.setSlot w none).queue = d.queue from rfl, ht.link j q]
    show _ ↔ (if (loc j).owner = some w then { loc j with owner := none } else loc j).link = some q
    split <;> rfl
  · show update d.slot w none v = some j ↔
      (if (loc j).owner = some w then { loc j with owner := none } else loc j).owner = some v
    have ho := ht.owner j v
    by_cases hv : v = w
    · subst hv
      rw [update_self]
      split
      · simp
      · rename_i hne
        simp [hne]
    · rw [update_of_ne hv, ho]
      split
      · rename_i he
        simp [he, Ne.symm hv]
      · rfl
  · show (A j → P (if (loc j).owner = some w then { loc j with owner := none } else loc j) _) ∧
      (¬ A j → (if (loc j).owner = some w then { loc j with owner := none } else loc j) = _)
    by_cases hw : (loc j).owner = some w
    · have hslot := (ht.owner j w).mpr hw
      have he : loc j = ⟨(loc j).link, some w⟩ := by rw [← hw]
      rw [if_pos hw]
      refine ⟨fun haj => ?_, fun hna => ?_⟩
      · have hp := (hall j hj).1 haj
        rw [he] at hp
        exact hold j hslot _ hp
      · have hn := (hall j hj).2 hna
        rw [hn] at hw
        cases hw
    · rw [if_neg hw]
      exact hall j hj

theorem Focus.fill [DecidableEq ι] [DecidableEq ω] {w : ω} (h : Focus P A d i l)
    (hl : l.owner = none) (hw : d.slot w = none) :
    Focus P A (d.setSlot w (some i)) i { l with owner := some w } := by
  refine h.move _ rfl h.nodup (fun q => h.mem_iff) (fun v => ?_) (fun _ _ _ => Iff.rfl)
    fun j v hj => ?_
  · show update d.slot w (some i) v = some i ↔ _
    by_cases hv : v = w
    · simp [hv]
    · rw [update_of_ne hv, h.slot_eq, hl]
      simp [Ne.symm hv]
  · show update d.slot w (some i) v = some j ↔ _
    by_cases hv : v = w
    · rw [hv, update_self, hw]
      simp [Ne.symm hj]
    · rw [update_of_ne hv]

end Rules

/-! ## 3. Scanning a queue -/

/-- **A scan** visits the items that a queue had at its start. It keeps what every visit of an item
    of the queue keeps, if a visit takes no other item out. -/
theorem foldl_scan {σ ι : Type} {I : σ → Prop} (queue : σ → List ι) {visit : σ → ι → σ}
    (hstep : ∀ s i, I s → i ∈ queue s → I (visit s i))
    (hmem : ∀ s i j, j ≠ i → j ∈ queue s → j ∈ queue (visit s i)) {s : σ} (hs : I s)
    (hnodup : (queue s).Nodup) : I ((queue s).foldl visit s) := by
  have hscan : ∀ (js : List ι) (s : σ), I s → js.Nodup → (∀ j ∈ js, j ∈ queue s) →
      I (js.foldl visit s) := by
    intro js
    induction js with
    | nil => exact fun s hs _ _ => hs
    | cons i js ih =>
      intro s hs hnodup hall
      obtain ⟨hnot, hnodup⟩ := List.nodup_cons.mp hnodup
      refine ih _ (hstep s i hs (hall i List.mem_cons_self)) hnodup fun j hj => ?_
      have hne : j ≠ i := by
        rintro rfl
        exact hnot hj
      exact hmem s i j hne (hall j (List.mem_cons_of_mem _ hj))
  exact hscan (queue s) s hs hnodup fun _ hj => hj

end Pfs.Lib
