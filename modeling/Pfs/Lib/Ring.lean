/-
  Circular doubly linked lists in memory: a header and nodes that are linked both ways.

  `Links` is the memory of all link fields. The operations are sequences of assignments, in the
  order in which the usual C implementation makes them; they are defined whether or not the memory
  holds a proper list, so what a wrong call does to it can be computed.
-/
import Mathlib.Data.List.Chain
import Mathlib.Data.List.Nodup

namespace Pfs.Lib

open Function List

/-- The `next` and `prev` fields of every node. -/
structure Links (ν : Type) where
  next : ν → ν
  prev : ν → ν

namespace Links

variable {ν : Type} [DecidableEq ν]

def setNext (m : Links ν) (a b : ν) : Links ν := { m with next := update m.next a b }

def setPrev (m : Links ν) (a b : ν) : Links ν := { m with prev := update m.prev a b }

def initHead (m : Links ν) (x : ν) : Links ν := (m.setNext x x).setPrev x x

/-- Between two. -/
def addBetween (m : Links ν) (x p n : ν) : Links ν :=
  (((m.setPrev n x).setNext x n).setPrev x p).setNext p x

/-- To the end. -/
def addTail (m : Links ν) (x h : ν) : Links ν := m.addBetween x (m.prev h) h

/-- To the front. -/
def addHead (m : Links ν) (x h : ν) : Links ν := m.addBetween x h (m.next h)

/-- Closes a gap. -/
def join (m : Links ν) (p n : ν) : Links ν := (m.setPrev n p).setNext p n

/-- Takes one out. -/
def delInit (m : Links ν) (x : ν) : Links ν := (m.join (m.prev x) (m.next x)).initHead x

end Links

section Ring

variable {ν : Type} {m m' : Links ν} {h x : ν} {l : List ν}

def LinkedTo (m : Links ν) (a b : ν) : Prop := m.next a = b ∧ m.prev b = a

/-- The nodes reached from the header `h` are exactly `l`, without repetition. -/
structure Ring (m : Links ν) (h : ν) (l : List ν) : Prop where
  chain : List.IsChain (LinkedTo m) (h :: l ++ [h])
  nodup : (h :: l).Nodup

/-- A chain reads `next` of every node but the last and `prev` of every node but the first. -/
theorem chain_transport {L : List ν} (hn : ∀ a ∈ L.dropLast, m'.next a = m.next a)
    (hp : ∀ b ∈ L.tail, m'.prev b = m.prev b) (hc : List.IsChain (LinkedTo m) L) :
    List.IsChain (LinkedTo m') L := by
  induction L with
  | nil => exact .nil
  | cons a L ih =>
    cases L with
    | nil => exact .singleton a
    | cons b L =>
      obtain ⟨⟨hab, hba⟩, hrest⟩ := isChain_cons_cons.mp hc
      rw [dropLast_cons_cons] at hn
      refine isChain_cons_cons.mpr ⟨⟨?_, ?_⟩, ih ?_ ?_ hrest⟩
      · rw [hn a mem_cons_self, hab]
      · rw [hp b mem_cons_self, hba]
      · exact fun c hc => hn c (mem_cons_of_mem _ hc)
      · exact fun c hc => hp c (mem_cons_of_mem _ hc)

theorem exists_last (h : ν) (l : List ν) : ∃ f y, h :: l = f ++ [y] :=
  ⟨(h :: l).dropLast, (h :: l).getLast (cons_ne_nil _ _),
    (dropLast_append_getLast (cons_ne_nil _ _)).symm⟩

theorem exists_first (h : ν) (l : List ν) : ∃ b g, l ++ [h] = b :: g := by
  cases l with
  | nil => exact ⟨h, [], rfl⟩
  | cons b l => exact ⟨b, l ++ [h], rfl⟩

section Parts

variable {l₁ l₂ f g : List ν} {a b : ν}

theorem Ring.parts (hr : Ring m h (l₁ ++ l₂)) :
    ∃ f a b g, h :: l₁ = f ++ [a] ∧ l₂ ++ [h] = b :: g ∧
      List.IsChain (LinkedTo m) (f ++ [a]) ∧ List.IsChain (LinkedTo m) (b :: g) ∧
        LinkedTo m a b := by
  obtain ⟨f, a, hA⟩ := exists_last h l₁
  obtain ⟨b, g, hB⟩ := exists_first h l₂
  have hold : h :: (l₁ ++ l₂) ++ [h] = (f ++ [a]) ++ b :: g := by
    rw [← hA, ← hB]
    simp
  have hc := hr.chain
  rw [hold, isChain_append] at hc
  obtain ⟨hcA, hcB, hseam⟩ := hc
  exact ⟨f, a, b, g, hA, hB, hcA, hcB, hseam a (by simp) b (by simp)⟩

theorem Ring.around (hr : Ring m h (l₁ ++ x :: l₂)) :
    ∃ f a b g, h :: l₁ = f ++ [a] ∧ l₂ ++ [h] = b :: g ∧
      List.IsChain (LinkedTo m) (f ++ [a]) ∧ List.IsChain (LinkedTo m) (b :: g) ∧
      m.prev x = a ∧ m.next x = b := by
  obtain ⟨f, a, y, g, hA, hB, hcA, hcB, hlink⟩ := hr.parts
  obtain ⟨b, g', hB'⟩ := exists_first h l₂
  rw [cons_append, hB'] at hB
  obtain ⟨rfl, rfl⟩ := List.cons.inj hB
  obtain ⟨hxb, hcB⟩ := isChain_cons_cons.mp hcB
  exact ⟨f, a, b, g', hA, hB', hcA, hcB, hlink.2, hxb.1⟩

theorem mem_front {c : ν} (hA : h :: l₁ = f ++ [a]) (hc : c ∈ f ++ [a]) : c ∈ h :: (l₁ ++ l₂) :=
  mem_append_left l₂ (hA ▸ hc)

theorem mem_back {c : ν} (hB : l₂ ++ [h] = b :: g) (hc : c ∈ b :: g) : c ∈ h :: (l₁ ++ l₂) := by
  rw [← hB] at hc
  rcases mem_append.mp hc with hc | hc
  · exact mem_cons_of_mem _ (mem_append_right _ hc)
  · exact mem_singleton.mp hc ▸ mem_cons_self

/-- The links of both parts are kept by a change at `x`, which is in neither, and at the seam. -/
theorem chain_seam {n : Links ν} (hnd : (h :: (l₁ ++ l₂)).Nodup) (hx : x ∉ h :: (l₁ ++ l₂))
    (hA : h :: l₁ = f ++ [a]) (hB : l₂ ++ [h] = b :: g) (hcA : List.IsChain (LinkedTo m) (f ++ [a]))
    (hcB : List.IsChain (LinkedTo m) (b :: g)) (hn : ∀ c, c ≠ x → c ≠ a → n.next c = m.next c)
    (hp : ∀ c, c ≠ x → c ≠ b → n.prev c = m.prev c) :
    List.IsChain (LinkedTo n) (f ++ [a]) ∧ List.IsChain (LinkedTo n) (b :: g) := by
  have hne : ∀ c ∈ h :: (l₁ ++ l₂), c ≠ x := fun c hc e => hx (e ▸ hc)
  -- the header and the first part are apart from the second part
  obtain ⟨hndA, hnd₂, hdisj⟩ := nodup_append.mp (show (h :: l₁ ++ l₂).Nodup from hnd)
  have ha : a ∈ h :: l₁ := by simp [hA]
  have hb : b ∈ l₂ ++ [h] := by simp [hB]
  have hndB : (b :: g).Nodup := by
    rw [← hB]
    refine nodup_append.mpr ⟨hnd₂, by simp, fun c hc d hd e => ?_⟩
    exact hdisj h mem_cons_self c hc (mem_singleton.mp hd ▸ e.symm)
  refine ⟨chain_transport (fun c hc => ?_) (fun c hc => ?_) hcA,
    chain_transport (fun c hc => ?_) (fun c hc => ?_) hcB⟩
  · rw [dropLast_concat] at hc
    refine hn c (hne c (mem_front hA (mem_append_left _ hc))) ?_
    rw [hA, nodup_append] at hndA
    exact hndA.2.2 c hc a (by simp)
  · rw [← hA] at hc
    have hcl : c ∈ l₁ := hc
    refine hp c (hne c (mem_cons_of_mem _ (mem_append_left _ hcl))) ?_
    rcases mem_append.mp hb with hb | hb
    · exact hdisj c (mem_cons_of_mem _ hcl) b hb
    · rw [mem_singleton.mp hb]
      exact fun e => (nodup_cons.mp hndA).1 (e ▸ hcl)
  · rw [← hB, dropLast_concat] at hc
    exact hn c (hne c (mem_cons_of_mem _ (mem_append_right _ hc))) (hdisj a ha c hc).symm
  · have hcg : c ∈ g := hc
    exact hp c (hne c (mem_back hB (mem_cons_of_mem _ hcg))) fun e =>
      (nodup_cons.mp hndB).1 (e ▸ hcg)

end Parts

theorem Ring.next_header (hr : Ring m h l) : m.next h = l.headD h := by
  have hc := hr.chain
  cases l with
  | nil => exact (isChain_cons_cons.mp hc).1.1
  | cons a l => exact (isChain_cons_cons.mp hc).1.1

theorem Ring.next_member {l₁ l₂ : List ν} (hr : Ring m h (l₁ ++ x :: l₂)) :
    m.next x = l₂.headD h := by
  obtain ⟨f, a, b, g, -, hB, -, -, -, hnext⟩ := hr.around
  rw [hnext]
  cases l₂ with
  | nil => exact (List.cons.inj hB).1.symm
  | cons c l₂ => exact (List.cons.inj hB).1.symm

theorem Ring.next_mem (hr : Ring m h l) (hx : x ∈ h :: l) : m.next x ∈ h :: l := by
  have hhead : ∀ l' : List ν, l' ⊆ l → l'.headD h ∈ h :: l := by
    intro l' hl
    cases l' with
    | nil => exact mem_cons_self
    | cons a l' => exact mem_cons_of_mem _ (hl mem_cons_self)
  rcases mem_cons.mp hx with rfl | hx
  · rw [hr.next_header]
    exact hhead l fun _ h => h
  obtain ⟨l₁, l₂, rfl⟩ := append_of_mem hx
  rw [hr.next_member]
  exact hhead l₂ fun a ha => mem_append_right _ (mem_cons_of_mem _ ha)

theorem Ring.prev_mem (hr : Ring m h l) (hx : x ∈ l) : m.prev x ∈ h :: l := by
  obtain ⟨l₁, l₂, rfl⟩ := append_of_mem hx
  obtain ⟨f, a, b, g, hA, -, -, -, hprev, -⟩ := hr.around
  have ha : a ∈ h :: l₁ := by
    rw [hA]
    exact mem_append_right _ mem_cons_self
  rw [hprev]
  rcases mem_cons.mp ha with rfl | ha
  · exact mem_cons_self
  · exact mem_cons_of_mem _ (mem_append_left _ ha)

theorem Ring.of_agree (hr : Ring m h l)
    (hag : ∀ a ∈ h :: l, m'.next a = m.next a ∧ m'.prev a = m.prev a) :
    Ring m' h l := by
  have hmem : ∀ a ∈ h :: l ++ [h], a ∈ h :: l := by
    intro a ha
    rcases mem_append.mp ha with ha | ha
    · exact ha
    · exact mem_singleton.mp ha ▸ mem_cons_self
  refine ⟨chain_transport ?_ ?_ hr.chain, hr.nodup⟩
  · exact fun a ha => (hag a (hmem a (dropLast_subset _ ha))).1
  · exact fun a ha => (hag a (hmem a (mem_of_mem_tail ha))).2

theorem Ring.next_ne (hr : Ring m h l) (hx : x ∈ l) : m.next x ≠ x := by
  obtain ⟨l₁, l₂, rfl⟩ := append_of_mem hx
  obtain ⟨f, a, b, g, -, hB, -, -, -, hnext⟩ := hr.around
  rw [hnext]
  rintro rfl
  -- the next node is the header or a later member
  have hnd : (h :: l₁ ++ b :: l₂).Nodup := hr.nodup
  obtain ⟨-, hndb, hdisj⟩ := nodup_append.mp hnd
  have hb : b ∈ l₂ ++ [h] := by rw [hB]; exact mem_cons_self
  rcases mem_append.mp hb with hb | hb
  · exact (nodup_cons.mp hndb).1 hb
  · exact hdisj h mem_cons_self b mem_cons_self (mem_singleton.mp hb).symm

variable [DecidableEq ν]

theorem Ring.init (m : Links ν) (x : ν) : Ring (m.initHead x) x [] := by
  refine ⟨isChain_cons_cons.mpr ⟨⟨?_, ?_⟩, .singleton x⟩, by simp⟩
  · exact update_self x x m.next
  · exact update_self x x m.prev

theorem Ring.initHead (hr : Ring m h l) (hx : x ∉ h :: l) : Ring (m.initHead x) h l := by
  refine hr.of_agree fun a ha => ?_
  have hne : a ≠ x := fun e => hx (e ▸ ha)
  exact ⟨update_of_ne hne _ _, update_of_ne hne _ _⟩

theorem Ring.addBetween {l₁ l₂ f g : List ν} {a b : ν} (hr : Ring m h (l₁ ++ l₂))
    (hx : x ∉ h :: (l₁ ++ l₂)) (hA : h :: l₁ = f ++ [a]) (hB : l₂ ++ [h] = b :: g)
    (hcA : List.IsChain (LinkedTo m) (f ++ [a])) (hcB : List.IsChain (LinkedTo m) (b :: g)) :
    Ring (m.addBetween x a b) h (l₁ ++ x :: l₂) := by
  have hxa : x ≠ a := fun e => hx (mem_front hA (by simp [e]))
  have hbx : b ≠ x := fun e => hx (mem_back hB (by simp [e]))
  have hnew : h :: (l₁ ++ x :: l₂) ++ [h] = (f ++ [a]) ++ x :: b :: g := by
    rw [← hA, ← hB]
    simp
  have hnd : (h :: l₁ ++ x :: l₂).Nodup := nodup_middle.mpr (nodup_cons.mpr ⟨hx, hr.nodup⟩)
  refine ⟨?_, hnd⟩
  rw [hnew, isChain_append]
  obtain ⟨hcA', hcB'⟩ := chain_seam (n := m.addBetween x a b) hr.nodup hx hA hB hcA hcB
    (fun c hcx hca => (update_of_ne hca _ _).trans (update_of_ne hcx _ _))
    (fun c hcx hcb => (update_of_ne hcx _ _).trans (update_of_ne hcb _ _))
  unfold Links.addBetween Links.setNext Links.setPrev at hcA' hcB' ⊢
  refine ⟨hcA', isChain_cons_cons.mpr ⟨⟨?_, ?_⟩, hcB'⟩, ?_⟩
  · simp [update_of_ne hxa]
  · simp [update_of_ne hbx]
  · intro c hc d hd
    have hc' : c = a := by simpa using hc.symm
    have hd' : d = x := by simpa using hd.symm
    subst hc' hd'
    exact ⟨by simp, by simp⟩

theorem Ring.addTail (hr : Ring m h l) (hx : x ∉ h :: l) : Ring (m.addTail x h) h (l ++ [x]) := by
  rw [← append_nil l] at hr hx
  obtain ⟨f, a, b, g, hA, hB, hcA, hcB, hlink⟩ := hr.parts
  have hb : h = b := (List.cons.inj hB).1
  subst hb
  rw [Links.addTail, hlink.2]
  exact hr.addBetween hx hA hB hcA hcB

theorem Ring.addHead (hr : Ring m h l) (hx : x ∉ h :: l) : Ring (m.addHead x h) h (x :: l) := by
  obtain ⟨b, g, hB⟩ := exists_first h l
  have hchain : List.IsChain (LinkedTo m) (h :: b :: g) := hB ▸ hr.chain
  obtain ⟨hlink, hcB⟩ := isChain_cons_cons.mp hchain
  rw [Links.addHead, hlink.1]
  exact @Ring.addBetween _ m h x _ [] l [] g h b hr hx rfl hB (.singleton h) hcB

theorem Ring.other_addHead {h' : ν} {l' : List ν} (hr' : Ring m h' l') (hr : Ring m h l)
    (hd : ∀ a ∈ h' :: l', a ∉ h :: l) (hx : x ∉ h' :: l') : Ring (m.addHead x h) h' l' := by
  refine hr'.of_agree fun a ha => ?_
  have hax : a ≠ x := fun e => hx (e ▸ ha)
  have hah : a ≠ h := fun e => hd a ha (e ▸ mem_cons_self)
  have han : a ≠ m.next h := fun e => hd a ha (e ▸ hr.next_mem mem_cons_self)
  unfold Links.addHead Links.addBetween Links.setNext Links.setPrev
  simp [update_of_ne hax, update_of_ne hah, update_of_ne han]

theorem Ring.other_delInit {h' : ν} {l' : List ν} (hr' : Ring m h' l') (hr : Ring m h l)
    (hd : ∀ a ∈ h' :: l', a ∉ h :: l) (hx : x ∈ l) : Ring (m.delInit x) h' l' := by
  refine hr'.of_agree fun a ha => ?_
  have hax : a ≠ x := fun e => hd a ha (e ▸ mem_cons_of_mem _ hx)
  have han : a ≠ m.next x := fun e => hd a ha (e ▸ hr.next_mem (mem_cons_of_mem _ hx))
  have hap : a ≠ m.prev x := fun e => hd a ha (e ▸ hr.prev_mem hx)
  unfold Links.delInit Links.join Links.initHead Links.setNext Links.setPrev
  simp [update_of_ne hax, update_of_ne han, update_of_ne hap]

theorem Ring.delInit {l₁ l₂ : List ν} (hr : Ring m h (l₁ ++ x :: l₂)) :
    Ring (m.delInit x) h (l₁ ++ l₂) := by
  obtain ⟨f, a, b, g, hA, hB, hcA, hcB, hxa, hxb⟩ := hr.around
  have hmiddle : (h :: l₁ ++ x :: l₂).Nodup := hr.nodup
  obtain ⟨hx, hnd⟩ := nodup_cons.mp (nodup_middle.mp hmiddle)
  have hax : a ≠ x := fun e => hx (mem_front hA (by simp [e]))
  have hbx : b ≠ x := fun e => hx (mem_back hB (by simp [e]))
  have hnew : h :: (l₁ ++ l₂) ++ [h] = (f ++ [a]) ++ b :: g := by
    rw [← hA, ← hB]
    simp
  refine ⟨?_, hnd⟩
  rw [hnew, isChain_append]
  rw [Links.delInit, hxa, hxb]
  obtain ⟨hcA', hcB'⟩ := chain_seam (n := (m.join a b).initHead x) hnd hx hA hB hcA hcB
    (fun c hcx hca => (update_of_ne hcx _ _).trans (update_of_ne hca _ _))
    (fun c hcx hcb => (update_of_ne hcx _ _).trans (update_of_ne hcb _ _))
  refine ⟨hcA', hcB', fun c hc d hd => ?_⟩
  have hc' : c = a := by simpa using hc.symm
  have hd' : d = b := by simpa using hd.symm
  subst hc' hd'
  exact ⟨(update_of_ne hax _ _).trans (update_self _ _ _),
    (update_of_ne hbx _ _).trans (update_self _ _ _)⟩

end Ring

/-! ## Two lists -/

/-- Two lists that share no node. -/
structure Apart {ν : Type} (m : Links ν) (h : ν) (l : List ν) (h' : ν) (l' : List ν) : Prop where
  left : Ring m h l
  right : Ring m h' l'
  disjoint : ∀ a ∈ h :: l, a ∉ h' :: l'

namespace Apart

variable {ν : Type} {m : Links ν} {h h' x : ν} {l l' : List ν}

theorem symm (ha : Apart m h l h' l') : Apart m h' l' h l :=
  ⟨ha.right, ha.left, fun a hr hl => ha.disjoint a hl hr⟩

variable [DecidableEq ν]

theorem initHead (ha : Apart m h l h' l') (hx : x ∉ h :: l) (hx' : x ∉ h' :: l') :
    Apart (m.initHead x) h l h' l' :=
  ⟨ha.left.initHead hx, ha.right.initHead hx', ha.disjoint⟩

/-- A node is taken out of one list; the other stays as it is. -/
theorem take {l₁ l₂ : List ν} (ha : Apart m h (l₁ ++ x :: l₂) h' l') :
    Apart (m.delInit x) h (l₁ ++ l₂) h' l' ∧ x ∉ h :: (l₁ ++ l₂) ∧ x ∉ h' :: l' := by
  have hx : x ∈ l₁ ++ x :: l₂ := mem_append_right _ mem_cons_self
  have hnd : ((h :: l₁) ++ x :: l₂).Nodup := ha.left.nodup
  have hsub : (h :: (l₁ ++ l₂)).Sublist (h :: (l₁ ++ x :: l₂)) :=
    ((sublist_cons_self x l₂).append_left l₁).cons_cons h
  refine ⟨⟨ha.left.delInit, ha.right.other_delInit ha.left ha.symm.disjoint hx, ?_⟩, ?_, ?_⟩
  · exact fun a hm => ha.disjoint a (hsub.subset hm)
  · exact (nodup_cons.mp (nodup_middle.mp hnd)).1
  · exact ha.disjoint x (mem_cons_of_mem _ hx)

/-- A node is put into one list; the other stays as it is. -/
theorem put (ha : Apart m h l h' l') (hx : x ∉ h :: l) (hx' : x ∉ h' :: l') :
    Apart (m.addHead x h) h (x :: l) h' l' := by
  refine ⟨ha.left.addHead hx, ha.right.other_addHead ha.left ha.symm.disjoint hx', ?_⟩
  intro a hm hm'
  rcases mem_cons.mp hm with rfl | hm
  · exact ha.disjoint _ mem_cons_self hm'
  rcases mem_cons.mp hm with rfl | hm
  · exact hx' hm'
  · exact ha.disjoint a (mem_cons_of_mem _ hm) hm'

end Apart

end Pfs.Lib
