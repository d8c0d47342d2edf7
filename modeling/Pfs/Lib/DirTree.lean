/-
  A tree of directories and files, and the resolution of names in it.

  NOT here: links, permissions (a caller refuses the call as a whole).
-/
import Mathlib.Data.List.Basic
import Mathlib.Data.List.Induction

namespace Pfs.Lib

open List

inductive Comp (ν : Type) where
  | here
  | up
  | name (c : ν)
  deriving DecidableEq

inductive Node (α : Type) where
  | dir
  | file (a : α)
  deriving DecidableEq

inductive Errno where
  | noent
  | notdir
  | other
  deriving DecidableEq, Repr

/-- What stands at each place; `dom` lists all places that are not empty, and more perhaps. -/
structure DirTree (ν α : Type) where
  node : List ν → Option (Node α)
  dom : List (List ν)
  root : node [] = some .dir
  parent : ∀ p c, node (p ++ [c]) ≠ none → node p = some .dir
  covers : ∀ p, node p ≠ none → p ∈ dom

variable {ν α : Type}

def Comp.step : Comp ν → List ν → List ν
  | .here, p => p
  | .up, p => p.dropLast
  | .name c, p => p ++ [c]

/-- Where components lead to from `cur`. -/
def place (cur : List ν) (cs : List (Comp ν)) : List ν := cs.foldl (fun p c => c.step p) cur

instance (o : Option (Node α)) : Decidable (o = some .dir) :=
  match o with
  | none => isFalse nofun
  | some .dir => isTrue rfl
  | some (.file _) => isFalse nofun

namespace DirTree

/-! ## 1. Resolution -/

/-- Every component but the last one must be a directory; an error otherwise. -/
def walk (t : DirTree ν α) : List ν → List (Comp ν) → Except Errno (List ν)
  | cur, [] => .ok cur
  | cur, c :: cs =>
    if t.node cur = some .dir then
      match t.node (c.step cur) with
      | none => .error .noent
      | some _ => t.walk (c.step cur) cs
    else .error .notdir

variable {t t' t'' : DirTree ν α}

theorem walk_append (cur : List ν) (xs ys : List (Comp ν)) :
    t.walk cur (xs ++ ys) = (t.walk cur xs).bind fun p => t.walk p ys := by
  induction xs generalizing cur with
  | nil => rfl
  | cons c xs ih =>
    simp only [cons_append, walk]
    split
    · split
      · rfl
      · exact ih _
    · rfl

variable {cur p q : List ν} {cs xs : List (Comp ν)} {a : α} {c : ν}

theorem walk_eq_place (h : t.walk cur cs = .ok p) : p = place cur cs := by
  induction cs generalizing cur with
  | nil =>
    cases h
    rfl
  | cons c cs ih =>
    unfold walk at h
    split at h
    · split at h
      · cases h
      · exact ih h
    · cases h

theorem walk_node (hcur : t.node cur ≠ none) (h : t.walk cur cs = .ok p) : t.node p ≠ none := by
  induction cs generalizing cur with
  | nil =>
    cases h
    exact hcur
  | cons c cs ih =>
    unfold walk at h
    split at h
    · split at h
      · cases h
      · rename_i x hx
        exact ih (by rw [hx]; nofun) h
    · cases h

theorem walk_append_dir {ys : List (Comp ν)} (hys : ys ≠ []) (h : t.walk cur (xs ++ ys) = .ok p) :
    t.walk cur xs = .ok (place cur xs) ∧ t.node (place cur xs) = some .dir ∧
      t.walk (place cur xs) ys = .ok p := by
  rw [walk_append] at h
  cases hx : t.walk cur xs with
  | error e =>
    rw [hx] at h
    cases h
  | ok q =>
    rw [hx] at h
    rw [← walk_eq_place hx]
    refine ⟨rfl, ?_, h⟩
    cases ys with
    | nil => exact absurd rfl hys
    | cons c ys =>
      by_contra hd
      simp [Except.bind, walk, hd] at h

theorem walk_concat (h : t.walk cur xs = .ok p) (hp : t.node p = some .dir) (c : Comp ν)
    (hc : t.node (c.step p) ≠ none) : t.walk cur (xs ++ [c]) = .ok (c.step p) := by
  rw [walk_append, h]
  simp only [Except.bind, walk, hp, if_true]
  split
  · rename_i hn
    exact absurd hn hc
  · rfl

theorem node_dropLast (h : t.node p = some .dir) : t.node p.dropLast = some .dir := by
  rcases eq_nil_or_concat p with rfl | ⟨q, c, rfl⟩
  · exact h
  rw [concat_eq_append, dropLast_concat]
  rw [concat_eq_append] at h
  exact t.parent q c (by rw [h]; nofun)

theorem walk_names (cs : List ν) (h : t.node (cur ++ cs) ≠ none) :
    t.walk cur (cs.map .name) = .ok (cur ++ cs) := by
  induction cs using List.reverseRecOn with
  | nil => simp [walk]
  | append_singleton cs c ih =>
    rw [← append_assoc] at h ⊢
    have hdir := t.parent _ _ h
    rw [map_append]
    exact walk_concat (ih (by rw [hdir]; nofun)) hdir (.name c) h

/-! ## 2. Changes -/

section Changes

variable [DecidableEq ν]

/-- `x` is put at `p ++ [c]`, where no directory stands. -/
def put (t : DirTree ν α) (p : List ν) (c : ν) (x : Node α) (hp : t.node p = some .dir)
    (hc : t.node (p ++ [c]) ≠ some .dir) : DirTree ν α where
  node q := if q = p ++ [c] then some x else t.node q
  dom := (p ++ [c]) :: t.dom
  root := by simp [t.root]
  parent q d h := by
    have hq : t.node q = some .dir := by
      split at h
      · rename_i he
        rw [(append_inj' he rfl).1, hp]
      · exact t.parent q d h
    split
    · rename_i he
      rw [he] at hq
      exact absurd hq hc
    · exact hq
  covers q h := by
    split at h
    · rename_i he
      exact he ▸ mem_cons_self
    · exact mem_cons_of_mem _ (t.covers q h)

/-- What stands at `p ++ [c]` is taken away; it is no directory. -/
def erase (t : DirTree ν α) (p : List ν) (c : ν) (hc : t.node (p ++ [c]) ≠ some .dir) :
    DirTree ν α where
  node q := if q = p ++ [c] then none else t.node q
  dom := t.dom
  root := by simp [t.root]
  parent q d h := by
    split at h
    · exact absurd rfl h
    have hq := t.parent q d h
    split
    · rename_i he
      rw [he] at hq
      exact absurd hq hc
    · exact hq
  covers q h := by
    split at h
    · exact absurd rfl h
    · exact t.covers q h

/-- The directory `s` is moved to `p ++ [c]`, with all that is in it. -/
def move (t : DirTree ν α) (s p : List ν) (c : ν) (hp : t.node p = some .dir) (hs : s ≠ [])
    (hsp : ¬ s <+: p ++ [c]) : DirTree ν α where
  node q :=
    if p ++ [c] <+: q then t.node (s ++ q.drop (p ++ [c]).length)
    else if s <+: q then none
    else t.node q
  dom := t.dom ++ t.dom.map fun q => p ++ [c] ++ q.drop s.length
  root := by
    have h1 : ¬ p ++ [c] <+: [] := by simp
    have h2 : ¬ s <+: [] := by simpa using hs
    rw [if_neg h1, if_neg h2, t.root]
  parent q d h := by
    by_cases hq : p ++ [c] <+: q
    · have hqd : p ++ [c] <+: q ++ [d] := hq.trans (prefix_append _ _)
      rw [if_pos hqd, drop_append_of_le_length hq.length_le, ← append_assoc] at h
      rw [if_pos hq]
      exact t.parent _ _ h
    rw [if_neg hq]
    by_cases hqd : p ++ [c] <+: q ++ [d]
    · -- `q` is the directory that gets the new entry
      have he : p = q := by
        rcases prefix_concat_iff.mp hqd with he | he
        · exact (append_inj' he rfl).1
        · exact absurd he hq
      rw [if_neg fun hsq => hsp (he ▸ hsq.trans (prefix_append _ _)), ← he, hp]
    · rw [if_neg hqd] at h
      split at h
      · exact absurd rfl h
      rename_i hsq
      rw [if_neg fun h' => hsq (h'.trans (prefix_append _ _))]
      exact t.parent q d h
  covers q h := by
    split at h
    · rename_i hq
      obtain ⟨r, rfl⟩ := hq
      rw [drop_left] at h
      exact mem_append_right _ (mem_map.mpr ⟨_, t.covers _ h, by simp⟩)
    · split at h
      · exact absurd rfl h
      · exact mem_append_left _ (t.covers q h)

@[simp] theorem put_node {p : List ν} {c : ν} {x : Node α} {hp : t.node p = some .dir}
    {hc : t.node (p ++ [c]) ≠ some .dir} (q : List ν) :
    (t.put p c x hp hc).node q = if q = p ++ [c] then some x else t.node q := rfl

@[simp] theorem erase_node {p : List ν} {c : ν} {hc : t.node (p ++ [c]) ≠ some .dir}
    (q : List ν) : (t.erase p c hc).node q = if q = p ++ [c] then none else t.node q := rfl

def EmptyDir (t : DirTree ν α) (p : List ν) : Prop :=
  ∀ q ∈ t.dom, p <+: q → q ≠ p → t.node q = none

instance (t : DirTree ν α) (p : List ν) : Decidable (t.EmptyDir p) :=
  have (q : List ν) : Decidable (t.node q = none) :=
    match t.node q with
    | none => isTrue rfl
    | some _ => isFalse nofun
  inferInstanceAs (Decidable (∀ q ∈ t.dom, p <+: q → q ≠ p → t.node q = none))

/-! ## 3. Calls -/

/-- The directory and the last name of something that is to be made or taken away. -/
def locate (t : DirTree ν α) (cur : List ν) (cs : List (Comp ν)) : Except Errno (List ν × ν) :=
  match cs.getLast? with
  | some (.name c) =>
    match t.walk cur cs.dropLast with
    | .error e => .error e
    | .ok p => if t.node p = some .dir then .ok (p, c) else .error .notdir
  | _ =>
    match t.walk cur cs with
    | .error e => .error e
    | .ok _ => .error .other

/-- `mkdir`, with what it is refused for. -/
def mkdir (t : DirTree ν α) (cur : List ν) (cs : List (Comp ν)) : Except Errno (DirTree ν α) :=
  match t.locate cur cs with
  | .error e => .error e
  | .ok (p, c) =>
    if h : t.node p = some .dir ∧ (t.node (p ++ [c])).isNone then
      .ok (t.put p c .dir h.1 fun hd => by simp [hd] at h)
    else .error .other

/-- `open` with O_CREAT: `a` is what a new file holds. -/
def create (t : DirTree ν α) (cur : List ν) (cs : List (Comp ν)) (a : α) :
    Except Errno (DirTree ν α) :=
  match t.locate cur cs with
  | .error e => .error e
  | .ok (p, c) =>
    if h : t.node p = some .dir ∧ (t.node (p ++ [c])).isNone then
      .ok (t.put p c (.file a) h.1 fun hd => by simp [hd] at h)
    else if t.node (p ++ [c]) = some .dir then .error .other
    else .ok t

/-- The file at a name gets the content `a`. -/
def write (t : DirTree ν α) (cur : List ν) (cs : List (Comp ν)) (a : α) : DirTree ν α :=
  match t.locate cur cs with
  | .error _ => t
  | .ok (p, c) =>
    if h : t.node p = some .dir ∧ (t.node (p ++ [c])).isSome ∧ t.node (p ++ [c]) ≠ some .dir then
      t.put p c (.file a) h.1 h.2.2
    else t

/-- `unlink`: a file is taken away. -/
def unlink (t : DirTree ν α) (cur : List ν) (cs : List (Comp ν)) : Except Errno (DirTree ν α) :=
  match t.locate cur cs with
  | .error e => .error e
  | .ok (p, c) =>
    if h : t.node (p ++ [c]) ≠ some .dir then
      if (t.node (p ++ [c])).isNone then .error .noent else .ok (t.erase p c h)
    else .error .other

/-- `rename` of what stands at `p ++ [c]` to `q ++ [d]`. -/
def renameAt (t : DirTree ν α) (p : List ν) (c : ν) (q : List ν) (d : ν) :
    Except Errno (DirTree ν α) :=
  match hsrc : t.node (p ++ [c]) with
  | none => .error .noent
  | some (.file a) =>
    if hq : t.node q = some .dir ∧ t.node (q ++ [d]) ≠ some .dir then
      if p ++ [c] = q ++ [d] then .ok t
      else
        .ok ((t.put q d (.file a) hq.1 hq.2).erase p c (by
          rw [put_node]
          split
          · nofun
          · rw [hsrc]
            nofun))
    else .error .other
  | some .dir =>
    if p ++ [c] = q ++ [d] then .ok t
    else
      if hq : t.node q = some .dir ∧ ¬ p ++ [c] <+: q ++ [d] then
        if (t.node (q ++ [d])).isNone ∨ t.node (q ++ [d]) = some .dir ∧ t.EmptyDir (q ++ [d]) then
          .ok (t.move (p ++ [c]) q d hq.1 (by simp) hq.2)
        else .error .other
      else .error .other

/-- `rename`, with what it is refused for. -/
def rename (t : DirTree ν α) (cur : List ν) (cs : List (Comp ν)) (cur' : List ν)
    (cs' : List (Comp ν)) : Except Errno (DirTree ν α) :=
  match t.locate cur cs with
  | .error e => .error e
  | .ok (p, c) =>
    match t.locate cur' cs' with
    | .error e => .error e
    | .ok (q, d) => t.renameAt p c q d

end Changes

/-! ## 4. Growth -/

/-- Directories are added and nothing else happens. -/
def Grows (t t' : DirTree ν α) : Prop :=
  ∀ p, t'.node p = t.node p ∨ t.node p = none ∧ t'.node p = some .dir

theorem Grows.refl (t : DirTree ν α) : Grows t t := fun _ => .inl rfl

theorem Grows.trans (h : Grows t t') (h' : Grows t' t'') : Grows t t'' := by
  intro p
  rcases h p with h1 | ⟨hn, hd⟩ <;> rcases h' p with h2 | ⟨hn', hd'⟩
  · exact .inl (h2.trans h1)
  · exact .inr ⟨h1 ▸ hn', hd'⟩
  · exact .inr ⟨hn, h2.trans hd⟩
  · rw [hd] at hn'
    cases hn'

theorem Grows.keeps (h : Grows t t') {x : Node α} (hp : t.node p = some x) :
    t'.node p = some x := by
  rcases h p with h | ⟨hn, -⟩
  · rw [h, hp]
  · cases hp.symm.trans hn

theorem Grows.of_file (h : Grows t t') (hp : t'.node p = some (.file a)) :
    t.node p = some (.file a) := by
  rcases h p with h | ⟨-, hd⟩
  · rw [← h, hp]
  · cases hp.symm.trans hd

theorem Grows.walk (h : Grows t t') (hw : t.walk cur cs = .ok p) : t'.walk cur cs = .ok p := by
  induction cs generalizing cur with
  | nil => exact hw
  | cons c cs ih =>
    unfold DirTree.walk at hw ⊢
    split at hw
    · rename_i hd
      rw [if_pos (h.keeps hd)]
      split at hw
      · cases hw
      rename_i x hx
      simp only [h.keeps hx]
      exact ih hw
    · cases hw

theorem locate_names (h : t.locate cur cs = .ok (p, c)) :
    t.node p = some .dir ∧ ∃ xs, cs = xs ++ [.name c] ∧ t.walk cur xs = .ok p := by
  unfold locate at h
  split at h
  · rename_i d hlast
    split at h
    · cases h
    rename_i q hw
    split at h
    · rename_i hd
      cases h
      exact ⟨hd, cs.dropLast, (dropLast_append_getLast? _ hlast).symm, hw⟩
    · cases h
  · split at h <;> cases h

theorem locate_concat (hw : t.walk cur xs = .ok p) (hp : t.node p = some .dir) (c : ν) :
    t.locate cur (xs ++ [.name c]) = .ok (p, c) := by
  simp [locate, hw, hp]

theorem locate_place (h : t.locate cur cs = .ok (p, c)) : place cur cs = p ++ [c] := by
  obtain ⟨-, xs, rfl, hw⟩ := locate_names h
  rw [walk_eq_place hw, place, foldl_append]
  rfl

variable [DecidableEq ν]

theorem mkdir_grows (h : t.mkdir cur cs = .ok t') :
    Grows t t' ∧ t'.walk cur cs = .ok (place cur cs) ∧ t'.node (place cur cs) = some .dir ∧
      ∀ q, q ≠ place cur cs → t'.node q = t.node q := by
  unfold mkdir at h
  split at h
  · cases h
  rename_i p c hloc
  split at h
  · rename_i hnew
    cases h
    have hplace := locate_place hloc
    obtain ⟨hdir, xs, rfl, hw⟩ := locate_names hloc
    have hg : Grows t (t.put p c .dir hnew.1 fun hd => by simp [hd] at hnew) := by
      intro q
      rw [put_node]
      split
      · rename_i hq
        exact .inr ⟨hq ▸ Option.isNone_iff_eq_none.mp hnew.2, rfl⟩
      · exact .inl rfl
    rw [hplace]
    refine ⟨hg, ?_, by simp, fun q hq => by rw [put_node, if_neg hq]⟩
    exact walk_concat (hg.walk hw) (hg.keeps hdir) (.name c) (by simp [Comp.step])
  · cases h

theorem mkdir_concat (hw : t.walk cur xs = .ok p) (hp : t.node p = some .dir)
    (hc : t.node (p ++ [c]) = none) : ∃ t', t.mkdir cur (xs ++ [.name c]) = .ok t' := by
  unfold mkdir
  rw [locate_concat hw hp]
  simp [hp, hc]

/-! ## 5. Frames -/

theorem create_keeps (h : t.create cur cs a = .ok t') {x : Node α} (hq : t.node q = some x) :
    t'.node q = some x := by
  unfold create at h
  split at h
  · cases h
  split at h
  · rename_i hnew
    cases h
    rw [put_node, if_neg, hq]
    rintro rfl
    rw [hq] at hnew
    exact absurd hnew.2 (by simp)
  · split at h
    · cases h
    · cases h
      exact hq

theorem write_node (t : DirTree ν α) (hq : q ≠ place cur cs) :
    (t.write cur cs a).node q = t.node q := by
  unfold write
  split
  · rfl
  rename_i p c hloc
  rw [locate_place hloc] at hq
  split
  · rw [put_node, if_neg hq]
  · rfl

theorem unlink_node (h : t.unlink cur cs = .ok t') (hq : q ≠ place cur cs) :
    t'.node q = t.node q := by
  unfold unlink at h
  split at h
  · cases h
  rename_i p c hloc
  rw [locate_place hloc] at hq
  split at h
  · split at h
    · cases h
    · cases h
      rw [erase_node, if_neg hq]
  · cases h

theorem rename_file {cur' : List ν} {cs' : List (Comp ν)} (h : t.rename cur cs cur' cs' = .ok t')
    (ha : t.node (place cur cs) = some (.file a)) : t'.node (place cur' cs') = some (.file a) ∧
      ∀ q, q ≠ place cur cs → q ≠ place cur' cs' → t'.node q = t.node q := by
  unfold rename at h
  split at h
  · cases h
  rename_i p c hsrc
  split at h
  · cases h
  rename_i q d hdst
  rw [locate_place hsrc] at ha
  rw [locate_place hsrc, locate_place hdst]
  unfold renameAt at h
  split at h
  · cases h
  · rename_i b hb
    cases hb.symm.trans ha
    split at h
    · split at h
      · rename_i he
        cases h
        exact ⟨he ▸ hb, fun _ _ _ => rfl⟩
      rename_i he
      cases h
      refine ⟨?_, fun r hr hr' => ?_⟩
      · rw [erase_node, if_neg (Ne.symm he), put_node, if_pos rfl]
      · rw [erase_node, if_neg hr, put_node, if_neg hr']
    · cases h
  · rename_i hb
    cases hb.symm.trans ha

end DirTree

end Pfs.Lib
