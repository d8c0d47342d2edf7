/-
  Tables of named slots that are filled from the front; a name `e` marks a free slot.
-/
import Mathlib.Data.List.Dedup
import Mathlib.Data.List.Perm.Subperm

namespace Pfs.Lib

open List

variable {κ ν μ : Type}

/-- The used slots come first, and have different names. -/
inductive Packed (e : κ) : List (κ × ν) → Prop
  | free {t : List (κ × ν)} (h : ∀ c ∈ t, c.1 = e) : Packed e t
  | used {c : κ × ν} {t : List (κ × ν)} (hc : c.1 ≠ e) (hne : ∀ d ∈ t, d.1 ≠ c.1)
      (ht : Packed e t) : Packed e (c :: t)

section Packed

variable {e : κ} {t : List (κ × ν)}

theorem Packed.front (h : Packed e t) :
    ∃ n, ((t.take n).map Prod.fst).Nodup ∧ (∀ c ∈ t.take n, c.1 ≠ e) ∧ ∀ c ∈ t.drop n, c.1 = e := by
  induction h with
  | @free t h => exact ⟨0, nodup_nil, by simp, h⟩
  | @used c t hc hne ht ih =>
    obtain ⟨n, hnd, hused, hfree⟩ := ih
    refine ⟨n + 1, ?_, ?_, hfree⟩
    · rw [take_succ_cons, map_cons, nodup_cons]
      refine ⟨fun hmem => ?_, hnd⟩
      obtain ⟨d, hd, he⟩ := mem_map.mp hmem
      exact hne d (mem_of_mem_take hd) he
    · rw [take_succ_cons]
      exact forall_mem_cons.mpr ⟨hc, hused⟩

theorem Packed.nodup (h : Packed e t) (hfull : ∀ c ∈ t, c.1 ≠ e) : (t.map Prod.fst).Nodup := by
  obtain ⟨n, hnd, -, hfree⟩ := h.front
  have hnil : t.drop n = [] := eq_nil_iff_forall_not_mem.mpr fun c hc =>
    hfull c (mem_of_mem_drop hc) (hfree c hc)
  rwa [take_of_length_le (drop_eq_nil_iff.mp hnil)] at hnd

theorem packed_map (g : ν → μ) (h : Packed e (t.map (Prod.map id g))) : Packed e t := by
  induction t with
  | nil => exact .free fun c hc => by cases hc
  | cons c t ih =>
    rw [map_cons] at h
    cases h with
    | free h =>
      refine .free fun d hd => ?_
      exact h (Prod.map id g d) (mem_map_of_mem (f := Prod.map id g) hd)
    | used hc hne ht =>
      exact .used hc (fun d hd => hne (Prod.map id g d) (mem_map_of_mem hd)) (ih ht)

end Packed

variable [DecidableEq κ]

/-- The first slot that has the name, up to the first free one. -/
def tableGet (e k : κ) : List (κ × ν) → Option ν
  | [] => none
  | c :: t => if c.1 = e then none else if c.1 = k then some c.2 else tableGet e k t

/-- The first slot that is free or has the name gets the name and the value. -/
def tablePut (e k : κ) (v : ν) : List (κ × ν) → List (κ × ν)
  | [] => []
  | c :: t => if c.1 = e ∨ c.1 = k then (k, v) :: t else c :: tablePut e k v t

section Put

variable {e k j : κ} {v : ν} {t : List (κ × ν)}

theorem mem_tablePut {d : κ × ν} (h : d ∈ tablePut e k v t) : d = (k, v) ∨ d ∈ t := by
  induction t with
  | nil => cases h
  | cons c t ih =>
    rw [tablePut] at h
    split at h
    · exact (mem_cons.mp h).imp_right (mem_cons_of_mem _)
    obtain rfl | h := mem_cons.mp h
    · exact .inr mem_cons_self
    · exact (ih h).imp_right (mem_cons_of_mem _)

@[simp]
theorem length_tablePut (t : List (κ × ν)) : (tablePut e k v t).length = t.length := by
  induction t with
  | nil => rfl
  | cons c t ih =>
    rw [tablePut]
    split
    · rfl
    · rw [length_cons, ih, length_cons]

theorem packed_put (hk : k ≠ e) (h : Packed e t) : Packed e (tablePut e k v t) := by
  induction h with
  | @free t h =>
    cases t with
    | nil => exact .free h
    | cons c t =>
      have hrest : ∀ d ∈ t, d.1 = e := fun d hd => h d (mem_cons_of_mem _ hd)
      rw [tablePut, if_pos (.inl (h c mem_cons_self))]
      exact .used hk (fun d hd => by rw [hrest d hd]; exact hk.symm) (.free hrest)
  | @used c t hc hne ht ih =>
    rw [tablePut]
    split
    · rename_i hstop
      have hck := hstop.resolve_left hc
      exact .used hk (fun d hd => hck ▸ hne d hd) ht
    rename_i hstop
    refine .used hc (fun d hd => ?_) ih
    obtain rfl | hd := mem_tablePut hd
    · exact fun he => hstop (.inr he.symm)
    · exact hne d hd

theorem tableGet_free (h : ∀ c ∈ t, c.1 = e) : tableGet e j t = none := by
  cases t with
  | nil => rfl
  | cons c t => rw [tableGet, if_pos (h c mem_cons_self)]

theorem tableGet_put_self (hk : k ≠ e) (hroom : ∃ c ∈ t, c.1 = e ∨ c.1 = k) :
    tableGet e k (tablePut e k v t) = some v := by
  induction t with
  | nil =>
    obtain ⟨c, hc, -⟩ := hroom
    cases hc
  | cons c t ih =>
    rw [tablePut]
    split
    · rw [tableGet, if_neg hk, if_pos rfl]
    rename_i hstop
    obtain ⟨d, hd, hdstop⟩ := hroom
    have hmem : d ∈ t := (mem_cons.mp hd).resolve_left fun he => hstop (he ▸ hdstop)
    rw [not_or] at hstop
    rw [tableGet, if_neg hstop.1, if_neg hstop.2]
    exact ih ⟨d, hmem, hdstop⟩

theorem tableGet_put_of_ne (hk : k ≠ e) (hj : j ≠ k) (h : Packed e t) :
    tableGet e j (tablePut e k v t) = tableGet e j t := by
  induction h with
  | @free t h =>
    cases t with
    | nil => rfl
    | cons c t =>
      rw [tablePut, if_pos (.inl (h c mem_cons_self)), tableGet_free h, tableGet, if_neg hk,
        if_neg hj.symm]
      exact tableGet_free fun d hd => h d (mem_cons_of_mem _ hd)
  | @used c t hc hne ht ih =>
    rw [tablePut]
    split
    · rename_i hstop
      have hck := hstop.resolve_left hc
      have hcj : c.1 ≠ j := fun he => hj (he.symm.trans hck)
      rw [tableGet, if_neg hk, if_neg hj.symm, tableGet, if_neg hc, if_neg hcj]
    · rw [tableGet, ih, tableGet]

end Put

section View

variable {e k : κ} (g : ν → μ)

theorem tableGet_map (t : List (κ × ν)) :
    tableGet e k (t.map (Prod.map id g)) = (tableGet e k t).map g := by
  induction t with
  | nil => rfl
  | cons c t ih =>
    rw [map_cons, tableGet, tableGet, ih]
    simp only [Prod.map_fst, id_eq, Prod.map_snd]
    split
    · rfl
    · split <;> rfl

theorem tablePut_map (v : ν) (t : List (κ × ν)) :
    (tablePut e k v t).map (Prod.map id g) = tablePut e k (g v) (t.map (Prod.map id g)) := by
  induction t with
  | nil => rfl
  | cons c t ih =>
    rw [map_cons, tablePut, tablePut]
    simp only [Prod.map_fst, id_eq]
    split
    · rfl
    · rw [map_cons, ih]

end View

/-- There is a slot for every name, as long as there are no more names than slots. -/
theorem Packed.room {e k : κ} {t : List (κ × ν)} (h : Packed e t) {names : List κ}
    (hsub : ∀ c ∈ t, c.1 ≠ e → c.1 ∈ names)
    (hlen : names.dedup.length ≤ t.length) (hk : k ∈ names) : ∃ c ∈ t, c.1 = e ∨ c.1 = k := by
  by_contra hnone
  have hno : ∀ c ∈ t, c.1 ≠ e ∧ c.1 ≠ k := fun c hc =>
    ⟨fun he => hnone ⟨c, hc, .inl he⟩, fun he => hnone ⟨c, hc, .inr he⟩⟩
  have hnd : (k :: t.map Prod.fst).Nodup := by
    refine nodup_cons.mpr ⟨fun hmem => ?_, h.nodup fun c hc => (hno c hc).1⟩
    obtain ⟨c, hc, he⟩ := mem_map.mp hmem
    exact (hno c hc).2 he
  have hsubset : k :: t.map Prod.fst ⊆ names.dedup := by
    refine cons_subset.mpr ⟨mem_dedup.mpr hk, fun x hx => ?_⟩
    obtain ⟨c, hc, rfl⟩ := mem_map.mp hx
    exact mem_dedup.mpr (hsub c hc (hno c hc).1)
  have hle := (subperm_of_subset hnd hsubset).length_le
  rw [length_cons, length_map] at hle
  omega

end Pfs.Lib
