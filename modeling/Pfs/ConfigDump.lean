/-
  The configuration store written to a file and loaded again (`Config`).

  The dump goes through the slots of the prefixes, and prints the newest entry of a slot first; the
  loader makes the last one it reads the newest. So the values of a key come back in the order in
  which they are printed, and under the prefix of the slot that they are printed in.

  Main results: `dump_load`, `dump_load_differs`.
-/
import Mathlib.Data.List.Nodup
import Pfs.Config

namespace Pfs.Conf

open Lib List

/-! ## 1. Lines and bytes -/

theorem loadLines_append (as bs : List Path) (l : Loader) :
    loadLines (as ++ bs) l = loadLines as l >>= loadLines bs := by
  induction as generalizing l with
  | nil => rfl
  | cons a as ih =>
    rw [cons_append, loadLines, loadLines]
    cases loadLine a l with
    | error e => rfl
    | ok l' => exact ih l'

@[elab_as_elim]
theorem forall_byte {P : UInt8 → Prop} (h : ∀ n < 256, P (UInt8.ofNat n)) (c : UInt8) : P c := by
  have hc := h c.toNat c.toNat_lt
  rwa [UInt8.ofNat_toNat] at hc

theorem keyByte_endsKey (c : UInt8) : endsKey c = false → endsKey (keyByte c) = false :=
  forall_byte (by decide +kernel) c

theorem keyByte_ne (c : UInt8) : c ≠ 10 ∧ c ≠ 0 → keyByte c ≠ 10 ∧ keyByte c ≠ 0 :=
  forall_byte (by decide +kernel) c

theorem isAlnum_plain (c : UInt8) : isAlnum c = true →
    isBlank c = false ∧ isSep c = false ∧ endsKey c = false ∧ c ≠ 91 ∧ c ≠ 35 ∧ c ≠ 59 ∧ c ≠ 93 ∧
      c ≠ 10 ∧ c ≠ 0 :=
  forall_byte (by decide +kernel) c

theorem alnum_of_lower (c : UInt8) :
    isAlnum (lower c) = true ∨ lower c = 95 → isAlnum c = true ∨ c = 95 :=
  forall_byte (by decide +kernel) c

/-! ## 2. Every store that is reached -/

/-- A value that the loader gives back: it has no '\n', and no blank at its ends. -/
structure Clean (val : Path) : Prop where
  ne : val ≠ []
  line : 10 ∉ val
  trimmed : Trimmed isBlank val

instance (val : Path) : Decidable (Clean val) :=
  decidable_of_iff (val ≠ [] ∧ 10 ∉ val ∧ val.dropWhile isBlank = val ∧
    val.rdropWhile isBlank = val) ⟨fun h => ⟨h.1, h.2.1, h.2.2⟩, fun h => ⟨h.ne, h.line, h.trimmed⟩⟩

def KeyText (k : Path) : Prop := ∀ c ∈ k, endsKey c = false ∧ c ≠ 10 ∧ c ≠ 0

structure NameOk (name : Path) : Prop where
  ne : name ≠ []
  trimmed : Trimmed isSep name
  chars : ∀ c ∈ name, c ≠ 93 ∧ c ≠ 10 ∧ c ≠ 0

/-- What `section` can be. -/
def PreOk (pre : Path) : Prop := pre = [] ∨ ∃ name, NameOk name ∧ pre = name ++ [45]

/-- An entry: its slot has a prefix that starts with the one it was put with. -/
structure McOk (slots : List Path) (m : Mc) : Prop where
  nul : 0 ∉ m.val
  room : m.val.length < Cmd.VAL_MAX_LEN
  key : ∀ i, m.slot = some i → ∃ q pre key0, slots[i]? = some q ∧ pre <+: q ∧ KeyText key0 ∧
    m.key = (pre ++ key0).map keyByte

structure StoreInv (s : Store) : Prop where
  slots : ∀ q ∈ s.slots, PreOk q ∧ q.length < PRE_LEN
  mcs : ∀ m ∈ s.mcs, McOk s.slots m

section Invariant

variable {s s' : Store} {pre key0 key val : Path}

theorem McOk.append {slots : List Path} {m : Mc} (h : McOk slots m) (more : List Path) :
    McOk (slots ++ more) m := by
  refine ⟨h.nul, h.room, fun i hi => ?_⟩
  obtain ⟨q, pre, key0, hq, hrest⟩ := h.key i hi
  refine ⟨q, pre, key0, ?_, hrest⟩
  rw [getElem?_append_left (List.getElem?_eq_some_iff.mp hq).1]
  exact hq

theorem putValue_cases (h : putValue pre key0 val s = .ok s') :
    pre.length < PRE_LEN ∧ val.length < Cmd.VAL_MAX_LEN ∧
      ∃ slot, s'.mcs = ⟨(pre ++ key0).map keyByte, val, slot⟩ :: s.mcs ∧
        (s'.slots = s.slots ∨ s'.slots = s.slots ++ [pre]) ∧
        ∀ i, slot = some i → ∃ q, s'.slots[i]? = some q ∧ pre <+: q := by
  unfold putValue at h
  split at h
  · cases h
  rename_i hroom
  rw [not_or, Nat.not_le, Nat.not_le] at hroom
  refine ⟨hroom.1, hroom.2, ?_⟩
  simp only [Except.ok.injEq] at h
  by_cases hfound : (s.slots.findIdx fun q => pre.isPrefixOf q) < s.slots.length
  · rw [if_pos hfound] at h
    subst h
    refine ⟨_, rfl, .inl rfl, fun i hi => ?_⟩
    cases hi
    refine ⟨_, getElem?_eq_getElem hfound, ?_⟩
    have hpre := @findIdx_getElem _ (fun q => pre.isPrefixOf q) s.slots hfound
    exact isPrefixOf_iff_prefix.mp hpre
  · rw [if_neg hfound] at h
    have hend : (s.slots.findIdx fun q => pre.isPrefixOf q) = s.slots.length :=
      Nat.le_antisymm findIdx_le_length (Nat.not_lt.mp hfound)
    split at h
    · subst h
      refine ⟨_, rfl, .inr rfl, fun i hi => ?_⟩
      cases hi
      rw [hend]
      exact ⟨pre, by simp, prefix_refl _⟩
    · subst h
      exact ⟨_, rfl, .inl rfl, fun i hi => (nomatch hi)⟩

theorem storeInv_put (hI : StoreInv s) (hpre : PreOk pre) (hkey : KeyText key0) (hval : 0 ∉ val)
    (h : putValue pre key0 val s = .ok s') : StoreInv s' := by
  obtain ⟨hlen, hroom, slot, hmcs, hslots, hin⟩ := putValue_cases h
  have hnew : McOk s'.slots ⟨(pre ++ key0).map keyByte, val, slot⟩ := by
    refine ⟨hval, hroom, fun i hi => ?_⟩
    obtain ⟨q, hq, hstart⟩ := hin i hi
    exact ⟨q, pre, key0, hq, hstart, hkey, rfl⟩
  obtain hslots | hslots := hslots
  · refine ⟨hslots ▸ hI.slots, ?_⟩
    rw [hmcs]
    exact forall_mem_cons.mpr ⟨hnew, hslots ▸ hI.mcs⟩
  refine ⟨fun q hq => ?_, ?_⟩
  · rw [hslots, mem_append, mem_singleton] at hq
    obtain hq | rfl := hq
    · exact hI.slots q hq
    · exact ⟨hpre, hlen⟩
  · rw [hmcs]
    refine forall_mem_cons.mpr ⟨hnew, fun m hm => ?_⟩
    rw [hslots]
    exact (hI.mcs m hm).append _

theorem storeInv_delete (hI : StoreInv s) (h : deleteValue pre key s = .ok s') : StoreInv s' := by
  unfold deleteValue at h
  simp only at h
  split at h
  · cases h
  · cases h
    exact ⟨hI.slots, fun m hm => hI.mcs m (mem_of_mem_filter hm)⟩

theorem setVal_mem {ms : List Mc} {m : Mc} (h : m ∈ setVal key val ms) :
    m ∈ ms ∨ ∃ m₀ ∈ ms, m = { m₀ with val := val } := by
  induction ms with
  | nil => cases h
  | cons a ms ih =>
    rw [setVal] at h
    split at h
    · obtain rfl | h := mem_cons.mp h
      · exact .inr ⟨a, mem_cons_self, rfl⟩
      · exact .inl (mem_cons_of_mem _ h)
    obtain rfl | h := mem_cons.mp h
    · exact .inl mem_cons_self
    obtain h | ⟨m₀, hm₀, rfl⟩ := ih h
    · exact .inl (mem_cons_of_mem _ h)
    · exact .inr ⟨m₀, mem_cons_of_mem _ hm₀, rfl⟩

theorem isValid_chars (h : isValid key = true) :
    (∀ c ∈ key, isAlnum c = true ∨ c = 95) ∧ key.head?.any isAlnum = true := by
  have hall : ∀ v ∈ Cmd.validcmd, (v.map lower).all (fun c => isAlnum c || c == 95) = true ∧
      (v.map lower).head?.any isAlnum = true := by decide
  obtain ⟨v, hv, heq⟩ := any_eq_true.mp h
  obtain ⟨hchars, hhead⟩ := hall v hv
  rw [← eq_of_beq heq] at hchars hhead
  refine ⟨fun c hc => alnum_of_lower c ?_, ?_⟩
  · simpa using all_eq_true.mp hchars _ (mem_map_of_mem hc)
  · cases key with
    | nil => exact hhead
    | cons c rest =>
      have hc : isAlnum (lower c) = true := hhead
      obtain hc' | rfl := alnum_of_lower c (.inl hc)
      · exact hc'
      · exact absurd hc (by decide)

theorem keyText_of_valid {k : Path} (h : ∀ c ∈ k, isAlnum c = true ∨ c = 95) : KeyText k := by
  intro c hc
  obtain halnum | rfl := h c hc
  · obtain ⟨-, -, hend, -, -, -, -, h10, h0⟩ := isAlnum_plain c halnum
    exact ⟨hend, h10, h0⟩
  · decide

theorem nameOk_of_valid (h : isValid key = true) : NameOk (key.takeWhile (· != 95)) := by
  obtain ⟨hchars, hhead⟩ := isValid_chars h
  have halnum : ∀ c ∈ key.takeWhile (· != 95), isAlnum c = true := by
    intro c hc
    have hne := mem_takeWhile_imp hc
    exact (hchars c ((takeWhile_sublist _).subset hc)).resolve_right (by simpa using hne)
  refine ⟨?_, trimmed_of_all fun c hc => (isAlnum_plain c (halnum c hc)).2.1, fun c hc => ?_⟩
  · cases key with
    | nil => cases hhead
    | cons c rest =>
      have hc : c ≠ 95 := by
        rintro rfl
        have h95 : isAlnum 95 = true := hhead
        exact absurd h95 (by decide)
      rw [takeWhile_cons_of_pos (by simpa using hc)]
      exact cons_ne_nil _ _
  · obtain ⟨-, -, -, -, -, -, hchar⟩ := isAlnum_plain c (halnum c hc)
    exact hchar

theorem storeInv_update (hI : StoreInv s) (hvalid : isValid key = true) (hval : 0 ∉ val)
    (h : updateValue key val s = .ok s') : StoreInv s' := by
  obtain ⟨hchars, -⟩ := isValid_chars hvalid
  unfold updateValue at h
  split at h
  · split at h
    · rename_i hroom
      cases h
      refine ⟨hI.slots, fun m hm => ?_⟩
      obtain hm | ⟨m₀, hm₀, rfl⟩ := setVal_mem hm
      · exact hI.mcs m hm
      · exact ⟨hval, hroom, (hI.mcs m₀ hm₀).key⟩
    · cases h
  · split at h
    · simp only at h
      split at h
      · cases h
      refine storeInv_put hI (.inr ⟨_, nameOk_of_valid hvalid, rfl⟩) ?_ hval h
      refine keyText_of_valid fun c hc => hchars c ?_
      exact (dropWhile_sublist _).subset (mem_of_mem_drop hc)
    · exact storeInv_put hI (.inl rfl) (keyText_of_valid hchars) hval h

theorem storeInv_confupda {pairs : List StringPair} (hI : StoreInv s)
    (hpairs : ∀ p ∈ pairs, 0 ∉ p.1 ∧ 0 ∉ p.2) (h : doConfupda pairs s = .ok s') : StoreInv s' := by
  induction pairs generalizing s with
  | nil =>
    cases h
    exact hI
  | cons p ps ih =>
    obtain ⟨s₁, h₁, hrest⟩ := bind_eq_ok.mp h
    refine ih ?_ (fun q hq => hpairs q (mem_cons_of_mem _ hq)) hrest
    unfold confupdaOne at h₁
    split at h₁
    · cases h₁
      exact hI
    rename_i hp
    rw [not_or, Bool.not_eq_false] at hp
    split at h₁
    · cases h₁
    obtain ⟨s₂, h₂, hupd⟩ := bind_eq_ok.mp h₁
    refine storeInv_update (storeInv_delete hI h₂) hp.2 (fun h0 => ?_) hupd
    refine (hpairs p mem_cons_self).2 ?_
    unfold Cmd.cutText at h0
    split at h0
    · exact (takeWhile_sublist _).subset h0
    · exact h0

variable {p : Path}

theorem preOk_sectionOf {sect : Path} (hp : ∀ c ∈ p, c ≠ 10 ∧ c ≠ 0)
    (h : sectionOf p = some sect) : PreOk sect := by
  unfold sectionOf at h
  split at h
  · simp only [Option.some.injEq] at h
    subst h
    split
    · exact .inl rfl
    rename_i hne
    refine .inr ⟨_, ⟨hne, trimmed_trim _ _, fun c hc => ?_⟩, rfl⟩
    have htake := ( rdropWhile_prefix isSep _).subset ((dropWhile_sublist _).subset hc)
    have h93 := mem_takeWhile_imp htake
    obtain ⟨h10, h0⟩ := hp c ((takeWhile_sublist _).subset htake)
    exact ⟨by simpa using h93, h10, h0⟩
  · cases h

theorem keyText_keyOf (hp : ∀ c ∈ p, c ≠ 10 ∧ c ≠ 0) : KeyText (keyOf p) := by
  intro c hc
  have hend := mem_takeWhile_imp hc
  obtain ⟨h10, h0⟩ := hp c ((takeWhile_sublist _).subset hc)
  exact ⟨by simpa using hend, h10, h0⟩

theorem valueOf_subset {c : UInt8} (h : c ∈ valueOf p) : c ∈ p := by
  have h1 := ( rdropWhile_prefix isBlank _).subset h
  have h2 := (dropWhile_sublist _).subset h1
  have h3 := (dropWhile_sublist _).subset h2
  have h4 := (dropWhile_sublist _).subset h3
  exact mem_of_mem_drop h4

structure LoaderInv (l : Loader) : Prop where
  sect : PreOk l.sect
  store : StoreInv l.store
  clean : ∀ m ∈ l.store.mcs, Clean m.val

theorem loaderInv_line {line : Path} {l l' : Loader} (hI : LoaderInv l)
    (hline : ∀ c ∈ line, c ≠ 10 ∧ c ≠ 0) (h : loadLine line l = .ok l') : LoaderInv l' := by
  have hsub : ∀ c ∈ line.dropWhile isBlank, c ≠ 10 ∧ c ≠ 0 := fun c hc =>
    hline c ((dropWhile_sublist _).subset hc)
  unfold loadLine at h
  cases hp : line.dropWhile isBlank with
  | nil =>
    simp only [hp] at h
    cases h
    exact hI
  | cons c p =>
    rw [hp] at hsub
    simp only [hp] at h
    split at h
    · cases h
      refine ⟨?_, hI.store, hI.clean⟩
      cases hsect : sectionOf p with
      | none => exact hI.sect
      | some sect => exact preOk_sectionOf (fun x hx => hsub x (mem_cons_of_mem _ hx)) hsect
    split at h
    · cases h
      exact hI
    split at h
    · rename_i hstored
      rw [Bool.and_eq_true, bne_iff_ne] at hstored
      obtain ⟨s₁, hput, rfl⟩ := map_eq_ok.mp h
      have hnul : 0 ∉ valueOf (c :: p) := fun h0 => (hsub 0 (valueOf_subset h0)).2 rfl
      have hline : 10 ∉ valueOf (c :: p) := fun h10 => (hsub 10 (valueOf_subset h10)).1 rfl
      refine ⟨hI.sect, storeInv_put hI.store hI.sect (keyText_keyOf hsub) hnul hput, ?_⟩
      obtain ⟨-, -, slot, hmcs, -⟩ := putValue_cases hput
      simp only [hmcs]
      exact forall_mem_cons.mpr ⟨⟨hstored.2, hline, trimmed_strip _ _⟩, hI.clean⟩
    · cases h
      exact hI

theorem loaderInv_lines {ls : List Path} {l l' : Loader} (hI : LoaderInv l)
    (hls : ∀ line ∈ ls, ∀ c ∈ line, c ≠ 10 ∧ c ≠ 0) (h : loadLines ls l = .ok l') :
    LoaderInv l' := by
  induction ls generalizing l with
  | nil =>
    cases h
    exact hI
  | cons line ls ih =>
    obtain ⟨l₁, h₁, hrest⟩ := bind_eq_ok.mp h
    exact ih (loaderInv_line hI (hls line mem_cons_self) h₁)
      (fun line' hl' => hls line' (mem_cons_of_mem _ hl')) hrest

theorem loadfile_inv {text : Path} (h : loadfile text = .ok s) :
    StoreInv s ∧ ∀ m ∈ s.mcs, Clean m.val := by
  unfold loadfile at h
  split at h
  · cases h
  rename_i hok
  rw [not_or] at hok
  have hls : ∀ line ∈ (lines 10 text).1, ∀ c ∈ line, c ≠ 10 ∧ c ≠ 0 := by
    intro line hl c hc
    obtain ⟨h10, hsub⟩ := lines_mem text line hl
    exact ⟨fun h => h10 (h ▸ hc), fun h => hok.1 (h ▸ hsub c hc)⟩
  obtain ⟨l, hload, rfl⟩ := map_eq_ok.mp h
  have hstart : LoaderInv ⟨[], Store.empty⟩ :=
    ⟨.inl rfl, ⟨fun _ hq => (nomatch hq), fun _ hm => (nomatch hm)⟩, fun _ hm => (nomatch hm)⟩
  have hend := loaderInv_lines hstart hls hload
  exact ⟨hend.store, hend.clean⟩

theorem storeInv_of_reached (h : Reached s) : StoreInv s := by
  induction h with
  | load h => exact (loadfile_inv h).1
  | confupda _ hpairs h ih => exact storeInv_confupda ih hpairs h

end Invariant

/-! ## 3. The lines of the dump -/

/-- An entry that is printed in a slot with the prefix `pre`: what is left of the key behind as many
    bytes begins with a letter or a digit. -/
structure Printed (pre : Path) (m : Mc) : Prop where
  alnum : (m.key.drop pre.length).head?.any isAlnum = true
  text : KeyText (m.key.drop pre.length)
  clean : Clean m.val
  nul : 0 ∉ m.val
  room : m.val.length < Cmd.VAL_MAX_LEN

def mcLine (pre : Path) (m : Mc) : Path := 9 :: (m.key.drop pre.length ++ ascii " = " ++ m.val)

def headLine (pre : Path) : Path := ascii "[ " ++ pre.dropLast ++ ascii " ]"

section Lines

variable {pre : Path} {m : Mc} {l : Loader}

theorem dumpMc_eq (hpre : PreOk pre) (h : Printed pre m) :
    dumpMc pre m = .ok (mcLine pre m ++ [10]) := by
  have hno : pre ≠ ascii "nopre" := by
    rintro rfl
    obtain hnil | ⟨name, -, heq⟩ := hpre
    · exact absurd hnil (by decide)
    have hlast := congrArg List.getLast? heq
    rw [getLast?_concat] at hlast
    exact absurd hlast (by decide)
  have hle : pre.length ≤ m.key.length := by
    by_contra hlt
    have halnum := h.alnum
    rw [drop_eq_nil_of_le (by omega)] at halnum
    cases halnum
  have hstr : cstr ((m.key ++ 0 :: (m.val ++ [0])).drop pre.length) =
      .ok (m.key.drop pre.length) := by
    rw [drop_append_of_le_length hle]
    exact cstr_eq_ok.mpr ⟨_, rfl, fun h0 => (h.text 0 h0).2.2 rfl⟩
  rw [dumpMc, if_neg hno, hstr]
  rfl

theorem loadLine_head (hpre : PreOk pre) :
    loadLine (headLine pre) l = .ok { l with sect := pre } := by
  obtain rfl | ⟨name, hname, rfl⟩ := hpre
  · rfl
  have hsect : sectionOf (32 :: (name ++ [32, 93])) = some (name ++ [45]) := by
    have h93 : 93 ∉ 32 :: name ++ [32] := by
      simpa using fun hc => (hname.chars 93 hc).1 rfl
    have htake : (32 :: (name ++ [32, 93])).takeWhile (· != 93) = 32 :: name ++ [32] := by
      simpa using takeWhile_ne_append_cons h93 []
    have hlast : (32 :: name).rdropWhile isSep = 32 :: name := by
      rw [rdropWhile_eq_self_iff]
      intro hl
      rw [getLast_cons hname.ne]
      exact rdropWhile_eq_self_iff.mp hname.trimmed.2 hname.ne
    rw [sectionOf, if_pos (by simp), htake, rdropWhile_concat_pos _ _ _ (by decide), hlast,
      dropWhile_cons_of_pos (by decide), hname.trimmed.1]
    simp only [if_neg hname.ne]
  have hline : headLine (name ++ [45]) = 91 :: (32 :: (name ++ [32, 93])) := by
    rw [headLine, dropLast_concat]
    simp [ascii]
  rw [hline, loadLine, dropWhile_cons_of_neg (by decide)]
  simp only [hsect, if_true, Option.getD_some]

theorem loadLine_mc (h : Printed pre m) :
    loadLine (mcLine pre m) l =
      (putValue l.sect (m.key.drop pre.length) m.val l.store).map fun s =>
        { l with store := s } := by
  have hdrop : ∀ c ∈ m.key.drop pre.length, (!endsKey c) = true := fun c hc => by
    rw [(h.text c hc).1]
    rfl
  have hkey : keyOf (m.key.drop pre.length ++ ascii " = " ++ m.val) = m.key.drop pre.length := by
    rw [keyOf, append_assoc, takeWhile_append_of_pos hdrop]
    simp [ascii, endsKey, isBlank]
  have hvalue : valueOf (m.key.drop pre.length ++ ascii " = " ++ m.val) = m.val := by
    have hsep : ascii " = " ++ m.val = 32 :: 61 :: 32 :: m.val := rfl
    rw [valueOf, hkey, append_assoc, drop_left, hsep,
      dropWhile_cons_of_pos (by decide), dropWhile_cons_of_neg (by decide),
      dropWhile_cons_of_pos (by decide), dropWhile_cons_of_neg (by decide),
      dropWhile_cons_of_pos (by decide), h.clean.trimmed.1, h.clean.trimmed.2]
  have halnum := h.alnum
  cases hrest : m.key.drop pre.length with
  | nil =>
    rw [hrest] at halnum
    cases halnum
  | cons c rest =>
    rw [hrest] at halnum hkey hvalue
    have hc : isAlnum c = true := halnum
    obtain ⟨hblank, -, -, h91, h35, h59, -⟩ := isAlnum_plain c hc
    rw [append_assoc, cons_append, ← append_assoc] at hkey hvalue
    have hne : (m.val != []) = true := by simpa using h.clean.ne
    rw [loadLine, mcLine, hrest, dropWhile_cons_of_pos (by decide), append_assoc,
      cons_append, ← append_assoc, dropWhile_cons_of_neg (by simp [hblank])]
    simp only [if_neg h91, h35, h59, or_self, if_false, hkey, hvalue, head?_cons,
      Option.any_some, hc, hne, Bool.and_self, if_true]

end Lines

/-! ## 4. The file -/

/-- A key with its value, which is all that the answers depend on. -/
def Mc.pair (m : Mc) : Path × Path := (m.key, m.val)

/-- The lines of the slots from `i` on. -/
def slotLines (s : Store) : Nat → List Path → List Path
  | _, [] => []
  | i, pre :: slots =>
    (if 0 < i then [headLine pre] else []) ++ (s.prelist i).map (mcLine pre) ++ [dashes] ++
      slotLines s (i + 1) slots

/-- The key and the value of an entry that is printed in a slot with the prefix `pre`, when the line
    is read in the section `sect`. -/
def backPair (sect pre : Path) (m : Mc) : Path × Path :=
  ((sect ++ m.key.drop pre.length).map keyByte, m.val)

/-- What is read again of the slots from `i` on; the first one has no head. -/
def backFrom (s : Store) : Nat → List Path → List (Path × Path)
  | _, [] => []
  | i, pre :: slots =>
    (s.prelist i).map (backPair (if i = 0 then [] else pre) pre) ++ backFrom s (i + 1) slots

/-- The slots from `i` on have good prefixes, and their entries can be printed. -/
def AllPrinted (s : Store) : Nat → List Path → Prop
  | _, [] => True
  | i, pre :: slots =>
    PreOk pre ∧ pre.length < PRE_LEN ∧ (∀ m ∈ s.prelist i, Printed pre m) ∧
      AllPrinted s (i + 1) slots

section File

variable {s : Store}

theorem dumpMcs_eq {pre : Path} (hpre : PreOk pre) {ms : List Mc}
    (h : ∀ m ∈ ms, Printed pre m) : dumpMcs pre ms = .ok (joinLines 10 (ms.map (mcLine pre))) := by
  induction ms with
  | nil => rfl
  | cons m ms ih =>
    have hrest := ih fun m' hm' => h m' (mem_cons_of_mem _ hm')
    rw [dumpMcs, dumpMc_eq hpre (h m mem_cons_self), ok_bind, hrest, ok_bind]
    rfl

theorem dumpSlots_eq (slots : List Path) :
    ∀ i, AllPrinted s i slots → dumpSlots s i slots = .ok (joinLines 10 (slotLines s i slots)) := by
  induction slots with
  | nil =>
    intro i _
    rfl
  | cons pre slots ih =>
    rintro i ⟨hpre, -, hms, hrest⟩
    rw [dumpSlots, dumpMcs_eq hpre hms, ok_bind, ih (i + 1) hrest, ok_bind, slotLines,
      joinLines_append, joinLines_append, joinLines_append, joinLines_singleton]
    split
    · rw [joinLines_singleton, headLine]
    · rfl

def fileLines (s : Store) : List Path := [[], remark, []] ++ slotLines s 0 s.slots

theorem dumpToFile_eq (h : AllPrinted s 0 s.slots) :
    dumpToFile s = .ok (joinLines 10 (fileLines s)) := by
  rw [dumpToFile, dumpSlots_eq s.slots 0 h, ok_bind, fileLines, joinLines_append]
  rfl

theorem slotLines_text (slots : List Path) :
    ∀ i, AllPrinted s i slots → ∀ l ∈ slotLines s i slots, 10 ∉ l ∧ 0 ∉ l := by
  induction slots with
  | nil =>
    intro i _ l hl
    cases hl
  | cons pre slots ih =>
    rintro i ⟨hpre, -, hms, hrest⟩ l hl
    rw [slotLines, mem_append, mem_append, mem_append] at hl
    obtain ((hl | hl) | hl) | hl := hl
    · split at hl
      · rw [mem_singleton.mp hl]
        obtain rfl | ⟨name, hname, rfl⟩ := hpre
        · decide
        have h10 : 10 ∉ name := fun h => (hname.chars 10 h).2.1 rfl
        have h0 : 0 ∉ name := fun h => (hname.chars 0 h).2.2 rfl
        rw [headLine, dropLast_concat]
        simp [ascii, h10, h0]
      · cases hl
    · obtain ⟨m, hm, rfl⟩ := mem_map.mp hl
      have hp := hms m hm
      have h10 : 10 ∉ m.key.drop pre.length := fun h => (hp.text 10 h).2.1 rfl
      have h0 : 0 ∉ m.key.drop pre.length := fun h => (hp.text 0 h).2.2 rfl
      have h10' := hp.clean.line
      have h0' := hp.nul
      simp [mcLine, ascii, h10, h0, h10', h0']
    · rw [mem_singleton.mp hl]
      decide
    · exact ih (i + 1) hrest l hl

/-- The entries of a slot are put one after the other, so that the last one is the newest. -/
theorem loadLines_mcs {pre : Path} {ms : List Mc} (h : ∀ m ∈ ms, Printed pre m) :
    ∀ l : Loader, l.sect.length < PRE_LEN → ∃ s', loadLines (ms.map (mcLine pre)) l =
      .ok { l with store := s' } ∧ s'.mcs.map Mc.pair =
        (ms.map (backPair l.sect pre)).reverse ++ l.store.mcs.map Mc.pair := by
  induction ms with
  | nil =>
    intro l _
    exact ⟨l.store, rfl, rfl⟩
  | cons m ms ih =>
    intro l hsect
    have hm := h m mem_cons_self
    cases hput : putValue l.sect (m.key.drop pre.length) m.val l.store with
    | error e =>
      rw [putValue, if_neg (by
        have := hm.room
        omega)] at hput
      cases hput
    | ok s₁ =>
      obtain ⟨-, -, slot, hmcs, -⟩ := putValue_cases hput
      obtain ⟨s', hs', hpairs⟩ := ih (fun m' hm' => h m' (mem_cons_of_mem _ hm'))
        { l with store := s₁ } hsect
      refine ⟨s', ?_, ?_⟩
      · rw [map_cons, loadLines, loadLine_mc hm, hput]
        exact hs'
      · rw [hpairs, map_cons, reverse_cons, append_assoc, hmcs, map_cons]
        rfl

theorem loadLine_dashes (l : Loader) : loadLine dashes l = .ok l := by
  rfl

theorem loadLines_slots (slots : List Path) :
    ∀ (i : Nat) (l : Loader), AllPrinted s i slots → (i = 0 → l.sect = []) →
      ∃ l', loadLines (slotLines s i slots) l = .ok l' ∧
        l'.store.mcs.map Mc.pair = (backFrom s i slots).reverse ++ l.store.mcs.map Mc.pair := by
  induction slots with
  | nil =>
    intro i l _ _
    exact ⟨l, rfl, rfl⟩
  | cons pre slots ih =>
    rintro i l ⟨hpre, hlen, hms, hrest⟩ hfirst
    -- the head of the slot, which the first one does not need
    obtain ⟨l₁, hhead, hsect, hstore⟩ : ∃ l₁, loadLines (if 0 < i then [headLine pre] else []) l =
        .ok l₁ ∧ l₁.sect = (if i = 0 then [] else pre) ∧ l₁.store = l.store := by
      by_cases hi : i = 0
      · subst hi
        exact ⟨l, rfl, hfirst rfl, rfl⟩
      refine ⟨{ l with sect := pre }, ?_, (if_neg hi).symm, rfl⟩
      rw [if_pos (Nat.pos_of_ne_zero hi), loadLines, loadLine_head hpre]
      rfl
    have hroom : l₁.sect.length < PRE_LEN := by
      rw [hsect]
      split
      · decide
      · exact hlen
    obtain ⟨s', hbody, hpairs⟩ := loadLines_mcs hms l₁ hroom
    obtain ⟨l', hl', hmore⟩ := ih (i + 1) { l₁ with store := s' } hrest fun h => (nomatch h)
    refine ⟨l', ?_, ?_⟩
    · rw [slotLines, loadLines_append, loadLines_append, loadLines_append, hhead, ok_bind, hbody,
        ok_bind, loadLines, loadLine_dashes]
      exact hl'
    · rw [hmore, backFrom, reverse_append, append_assoc, ← hsect, hpairs, hstore]

end File

/-! ## 5. The same answers -/

/-- The entry is in a slot, and its key is longer than the prefix of the slot and goes on with a
    letter or a digit there. -/
def Printable (slots : List Path) (m : Mc) : Prop :=
  ∃ i ∈ m.slot, ∃ pre ∈ slots[i]?, (m.key.drop pre.length).head?.any isAlnum = true

instance (slots : List Path) (m : Mc) : Decidable (Printable slots m) :=
  inferInstanceAs (Decidable (∃ _ ∈ _, _))

/-- Every lookup gives the same answer. -/
def SameAnswers (s s' : Store) : Prop :=
  ∀ k, getValue k s' = getValue k s ∧ ∀ i, getMultivalue k i s' = getMultivalue k i s

section Answers

variable {s : Store}

theorem printed_of_printable (hI : StoreInv s) {i : Nat} {pre : Path} {m : Mc}
    (hm : m ∈ s.prelist i) (hpre : s.slots[i]? = some pre) (hprint : Printable s.slots m)
    (hclean : Clean m.val) : Printed pre m := by
  rw [Store.prelist, mem_filter] at hm
  obtain ⟨hmem, hslot⟩ := hm
  have hslot : m.slot = some i := eq_of_beq hslot
  obtain ⟨j, hj, pre', hpre', halnum⟩ := hprint
  cases hslot.symm.trans hj
  rw [hpre] at hpre'
  cases hpre'
  obtain ⟨q, p, key0, hq, hp, hkey0, hkey⟩ := (hI.mcs m hmem).key i hslot
  cases hpre.symm.trans hq
  refine ⟨halnum, fun c hc => ?_, hclean, (hI.mcs m hmem).nul, (hI.mcs m hmem).room⟩
  -- what is left of the key comes from the key of the line
  have hlen := hp.length_le
  rw [hkey, map_append, drop_append, drop_eq_nil_of_le (by
    rw [length_map]
    exact hlen), nil_append] at hc
  obtain ⟨c₀, hc₀, rfl⟩ := mem_map.mp (mem_of_mem_drop hc)
  obtain ⟨hend, hne⟩ := hkey0 c₀ hc₀
  exact ⟨keyByte_endsKey c₀ hend, keyByte_ne c₀ hne⟩

theorem allPrinted_of_printable (hI : StoreInv s) (hprint : ∀ m ∈ s.mcs, Printable s.slots m)
    (hclean : ∀ m ∈ s.mcs, Clean m.val) (slots : List Path) :
    ∀ i, s.slots.drop i = slots → AllPrinted s i slots := by
  induction slots with
  | nil =>
    intro i _
    trivial
  | cons pre slots ih =>
    intro i hi
    have hget : s.slots[i]? = some pre := by
      rw [← head?_drop, hi, head?_cons]
    obtain ⟨hpre, hlen⟩ := hI.slots pre (mem_of_getElem? hget)
    refine ⟨hpre, hlen, fun m hm => ?_, ih (i + 1) ?_⟩
    · have hmem := mem_of_mem_filter hm
      exact printed_of_printable hI hm hget (hprint m hmem) (hclean m hmem)
    · rw [← drop_drop, hi, drop_one, tail_cons]

theorem valuesOf_pairs (k : Path) (s : Store) :
    valuesOf k s = ((s.mcs.map Mc.pair).filter fun p => p.1 == k).map Prod.snd := by
  rw [filter_map, map_map]
  rfl

theorem sameAnswers_iff {s' : Store} : SameAnswers s s' ↔ ∀ k, valuesOf k s' = valuesOf k s := by
  refine forall_congr' fun k => ⟨fun h => ?_, fun h => ⟨?_, fun i => ?_⟩⟩
  · have hrev : (valuesOf k s').reverse = (valuesOf k s).reverse := by
      refine ext_getElem? fun i => ?_
      rw [← getMultivalue_eq, ← getMultivalue_eq, h.2 i]
    exact reverse_injective hrev
  · rw [getValue_eq, getValue_eq, h]
  · rw [getMultivalue_eq, getMultivalue_eq, h]

/-- Only values that the loader gives back can be answers of a store that was loaded. -/
theorem clean_of_sameAnswers {text : Path} {s' : Store} (hload : loadfile text = .ok s')
    (h : SameAnswers s s') : ∀ m ∈ s.mcs, Clean m.val := by
  intro m hm
  have hval : m.val ∈ valuesOf m.key s' := by
    rw [sameAnswers_iff.mp h]
    exact mem_map_of_mem (mem_filter.mpr ⟨hm, beq_self_eq_true _⟩)
  obtain ⟨m', hm', he⟩ := mem_map.mp hval
  rw [← he]
  exact (loadfile_inv hload).2 m' (mem_of_mem_filter hm')

/-- What the dump has in it, and what is loaded from it. -/
theorem dump_loads (hI : StoreInv s) (hprint : ∀ m ∈ s.mcs, Printable s.slots m)
    (hclean : ∀ m ∈ s.mcs, Clean m.val) :
    ∃ text s', dumpToFile s = .ok text ∧ loadfile text = .ok s' ∧
      s'.mcs.map Mc.pair = (backFrom s 0 s.slots).reverse := by
  have hall := allPrinted_of_printable hI hprint hclean s.slots 0 rfl
  obtain ⟨l, hl, hpairs⟩ := loadLines_slots s.slots 0 ⟨[], Store.empty⟩ hall fun _ => rfl
  have htext : ∀ line ∈ fileLines s, 10 ∉ line ∧ 0 ∉ line := by
    intro line hline
    rw [fileLines, mem_append] at hline
    obtain hline | hline := hline
    · revert line
      decide
    · exact slotLines_text s.slots 0 hall line hline
  have hlines := lines_join fun line hline => (htext line hline).1
  refine ⟨_, l.store, dumpToFile_eq hall, ?_, by simpa [Store.empty] using hpairs⟩
  have hnul : 0 ∉ joinLines 10 (fileLines s) := by
    intro h0
    obtain ⟨line, hline, h0⟩ := mem_flatMap.mp h0
    rw [mem_append, mem_singleton] at h0
    exact h0.elim (htext line hline).2 (by decide)
  rw [loadfile, if_neg (by simp [hnul, hlines]), hlines, fileLines, loadLines_append]
  -- the lines in front change nothing
  show (loadLines (slotLines s 0 s.slots) ⟨[], Store.empty⟩).map Loader.store = _
  rw [hl]
  rfl

end Answers

/-- **The dump and the loader are inverse** for the answers of the store **exactly if**, for each
    key, the values that are printed for it stand in the file from the oldest to the newest, and no
    value has a '\n' or blanks at its ends; of every entry some of its key is printed. -/
theorem dump_load (s : Store) (h : Reached s) (hprint : ∀ m ∈ s.mcs, Printable s.slots m) :
    (∃ text s', dumpToFile s = .ok text ∧ loadfile text = .ok s' ∧ SameAnswers s s') ↔
      (∀ m ∈ s.mcs, Clean m.val) ∧
        ∀ k, (((backFrom s 0 s.slots).reverse).filter fun p => p.1 == k).map Prod.snd =
          valuesOf k s := by
  have hI := storeInv_of_reached h
  constructor
  · rintro ⟨text, s', hdump, hload, hsame⟩
    have hclean := clean_of_sameAnswers hload hsame
    obtain ⟨text₁, s₁, hdump₁, hload₁, hpairs⟩ := dump_loads hI hprint hclean
    cases hdump.symm.trans hdump₁
    cases hload.symm.trans hload₁
    refine ⟨hclean, fun k => ?_⟩
    rw [← hpairs, ← valuesOf_pairs]
    exact sameAnswers_iff.mp hsame k
  · rintro ⟨hclean, horder⟩
    obtain ⟨text, s', hdump, hload, hpairs⟩ := dump_loads hI hprint hclean
    refine ⟨text, s', hdump, hload, sameAnswers_iff.mpr fun k => ?_⟩
    rw [valuesOf_pairs, hpairs]
    exact horder k

/-- A file with keys of its own, and two sections. -/
def someFile : Path :=
  ascii "timeout = 3\n[cs]\npreday = 2\n[ fcs ]\n\tmax_task = 7 \n"

def someStore : Store :=
  ⟨[⟨ascii "cs_preday", ascii "5", some 1⟩, ⟨ascii "fcs_max_task", ascii "7", some 2⟩,
    ⟨ascii "timeout", ascii "3", some 0⟩], [[], ascii "cs-", ascii "fcs-"]⟩

/-- The file, loaded, with a key of a section updated. -/
theorem dump_load_someStore :
    ∃ text s', dumpToFile someStore = .ok text ∧ loadfile text = .ok s' ∧
      SameAnswers someStore s' := by
  have hload : loadfile someFile = .ok ⟨[⟨ascii "fcs_max_task", ascii "7", some 2⟩,
      ⟨ascii "cs_preday", ascii "2", some 1⟩, ⟨ascii "timeout", ascii "3", some 0⟩],
      [[], ascii "cs-", ascii "fcs-"]⟩ := rfl
  have hupdate : doConfupda [(ascii "pfs_cmd", ascii "M_CONFUPDA"), (ascii "cs_preday", ascii "5")]
      ⟨[⟨ascii "fcs_max_task", ascii "7", some 2⟩, ⟨ascii "cs_preday", ascii "2", some 1⟩,
        ⟨ascii "timeout", ascii "3", some 0⟩], [[], ascii "cs-", ascii "fcs-"]⟩ =
      .ok someStore := rfl
  refine (dump_load someStore (.confupda (.load hload) (by decide) hupdate) (by decide)).mpr
    ⟨by decide, fun k => ?_⟩
  by_cases hk : k ∈ someStore.mcs.map Mc.key
  · revert k
    decide
  have hback : ∀ p ∈ (backFrom someStore 0 someStore.slots).reverse,
      p.1 ∈ someStore.mcs.map Mc.key := by decide
  have hfile : ∀ p ∈ (backFrom someStore 0 someStore.slots).reverse, ¬ (p.1 == k) = true :=
    fun p hp he => hk (eq_of_beq he ▸ hback p hp)
  have hstore : ∀ m ∈ someStore.mcs, ¬ (m.key == k) = true :=
    fun m hm he => hk (eq_of_beq he ▸ mem_map_of_mem hm)
  rw [valuesOf, filter_eq_nil_iff.mpr hfile, filter_eq_nil_iff.mpr hstore]
  rfl

/-- A key that is there twice changes its answers, and the keys of a section that comes first in the
    file lose their prefix. -/
theorem dump_load_differs :
    (∃ s text s', loadfile (ascii "a = 1\na = 2\n") = .ok s ∧ dumpToFile s = .ok text ∧
      loadfile text = .ok s' ∧ getValue (ascii "a") s = some (ascii "2") ∧
      getValue (ascii "a") s' = some (ascii "1") ∧
      getMultivalue (ascii "a") 0 s = some (ascii "1") ∧
      getMultivalue (ascii "a") 0 s' = some (ascii "2")) ∧
    ∃ s text s', loadfile (ascii "[s]\nk = 1\n") = .ok s ∧ dumpToFile s = .ok text ∧
      loadfile text = .ok s' ∧ getValue (ascii "s_k") s = some (ascii "1") ∧
      getValue (ascii "s_k") s' = none := by
  refine ⟨⟨_, _, _, rfl, rfl, rfl, ?_⟩, ⟨_, _, _, rfl, rfl, rfl, ?_⟩⟩
  · decide
  · decide

end Pfs.Conf
