/-
  The configuration store as a multimap, over histories of `myconfig_put_value`,
  `myconfig_delete_value`, `myconfig_update_value` and reads (lib/myconfig.c).

  `Config` has the entries; `myconfig_get_intval` keeps the integer it has read in the entry, and
  returns it from then on. Here every entry has that integer. Keys are the same if
  `myconfig_put_value` stores them alike.

  Main results: `agrees_step`, `config_multimap`, `config_multimap_fails`.
-/
import Pfs.ConfigDump

namespace Pfs.Conf

open Lib Function List

/-! ## 1. Multimaps -/

abbrev Multimap (κ ν : Type) : Type := κ → List ν

namespace Multimap

variable {κ ν : Type}

def empty : Multimap κ ν := fun _ => []

variable [DecidableEq κ]

def put (m : Multimap κ ν) (k : κ) (v : ν) : Multimap κ ν := update m k (m k ++ [v])

/-- The newest value is replaced; a key that has none gets its first. -/
def rewrite (m : Multimap κ ν) (k : κ) (v : ν) : Multimap κ ν :=
  update m k ((m k).dropLast ++ [v])

def erase (m : Multimap κ ν) (k : κ) : Multimap κ ν := update m k []

end Multimap

/-! ## 2. Integers -/

/-- The words that `myconfig_get_intval` knows, in the order it compares them. -/
def intWords : List (Path × Int) :=
  [(ascii "On", 1), (ascii "Off", 0), (ascii "Yes", 1), (ascii "No", 0), (ascii "True", 1),
    (ascii "False", 0), (ascii "enable", 1), (ascii "disable", 0), (ascii "enabled", 1),
    (ascii "disabled", 0)]

def startsNumber : Path → Bool
  | [] => false
  | c :: rest => isDigit c || (c == 45 && rest.head?.any isDigit)

def intReading (val : Path) : Option Int :=
  if startsNumber val then some (Client.atoi val)
  else (intWords.find? fun w => val.map lower == w.1.map lower).map Prod.snd

/-- The store with the `intval` of every entry, in the order of `mcs`; -1 where none is kept. -/
structure IntStore where
  store : Store
  ints : List Int
  deriving DecidableEq

namespace IntStore

def empty : IntStore := ⟨Store.empty, []⟩

/-- `myconfig_put_value` -/
def putValue (pre key0 val : Path) (s : IntStore) : Except Oob IntStore :=
  (Conf.putValue pre key0 val s.store).map fun t => ⟨t, -1 :: s.ints⟩

/-- `myconfig_delete_value`: an entry is freed with its integer. -/
def deleteValue (pre key : Path) (s : IntStore) : Except Oob IntStore :=
  (Conf.deleteValue pre key s.store).map fun t =>
    ⟨t, ((s.store.mcs.zip s.ints).filter fun e => e.1.key != (pre ++ key).map sepByte).map Prod.snd⟩

/-- `myconfig_update_value`: an entry that is there gets the value, and keeps its integer. -/
def updateValue (key value : Path) (s : IntStore) : Except Oob IntStore :=
  (Conf.updateValue key value s.store).map fun t =>
    ⟨t, if s.store.mcs.any fun m => m.key == key then s.ints else -1 :: s.ints⟩

/-- The place of the entry that the loop of `myconfig_get_intval` finds. -/
def place (key : Path) (s : IntStore) : Nat :=
  s.store.mcs.findIdx fun m =>
    r5hash m.key % 256 == r5hash key % 256 && (r5hash key == r5hash m.key && key == m.key)

/-- `mc->intval` of that entry. -/
def kept (key : Path) (s : IntStore) : Int := s.ints.getD (s.place key) (-1)

/-- `myconfig_get_intval` -/
def getIntval (key : Path) (d : Int) (s : IntStore) : Int × IntStore :=
  match s.store.mcs[s.place key]? with
  | none => (d, s)
  | some m =>
    if s.kept key = -1 then
      match intReading m.val with
      | none => (d, s)
      | some n => (n, { s with ints := s.ints.set (s.place key) n })
    else (s.kept key, s)

end IntStore

/-! ## 3. Histories -/

/-- What is done with the store. The other reads change nothing. -/
inductive ConfAct where
  | put (pre key0 val : Path)
  | delete (pre key : Path)
  | update (key value : Path)
  | getIntval (key : Path) (d : Int)
  deriving DecidableEq

/-- The four calls on the store; a read counts as one, it caches the number. -/
def confStep (s : IntStore) : ConfAct → Option IntStore
  | .put pre key0 val => (s.putValue pre key0 val).toOption
  | .delete pre key => (s.deleteValue pre key).toOption
  | .update key value => (s.updateValue key value).toOption
  | .getIntval key d => some (s.getIntval key d).2

/-- The key as `myconfig_put_value` stores it. -/
def normal (k : Path) : Path := k.map keyByte

/-- What an action writes, to a key up to `normal`. -/
def ConfAct.apply (m : Multimap Path Path) : ConfAct → Multimap Path Path
  | .put pre key0 val => m.put (normal (pre ++ key0)) val
  | .delete pre key => m.erase (normal (pre ++ key))
  | .update key value => m.rewrite (normal key) value
  | .getIntval _ _ => m

def written (acts : List ConfAct) : Multimap Path Path := acts.foldl ConfAct.apply Multimap.empty

/-- `pre` that `myconfig_update_value` makes for a new key. -/
def updatePre (key : Path) : Path := if 95 ∈ key then key.takeWhile (· != 95) ++ [45] else []

def updateKey0 (key : Path) : Path :=
  if 95 ∈ key then (key.dropWhile (· != 95)).drop 1 else key

/-- The section fits into `pre[20]`, and there is a slot for it. -/
def Store.Room (s : Store) (pre : Path) : Prop :=
  pre.length < PRE_LEN ∧ s.slots.findIdx (fun q => pre.isPrefixOf q) < 256

instance (s : Store) (pre : Path) : Decidable (s.Room pre) := inferInstanceAs (Decidable (_ ∧ _))

/-- What is asked of a step: sections have a slot, a key that is deleted has no upper case, one that
    is updated is as it is stored, and an update meets no entry that keeps another integer. -/
def Fine (s : IntStore) : ConfAct → Prop
  | .put pre _ val => s.store.Room pre ∧ val.length < Cmd.VAL_MAX_LEN
  | .delete pre key => (pre ++ key).map sepByte = normal (pre ++ key)
  | .update key value => normal key = key ∧ value.length < Cmd.VAL_MAX_LEN ∧
      (s.kept key = -1 ∨ intReading value = some (s.kept key)) ∧
      ((s.store.mcs.any fun m => m.key == key) = false →
        s.store.Room (updatePre key) ∧ (95 ∈ key → (updateKey0 key).length < 30))
  | .getIntval _ _ => True

/-- What the lookups of `k` are asked to give once `vs` is what was written to it. -/
structure Answers (s : IntStore) (k : Path) (vs : List Path) : Prop where
  value : getValue k s.store = vs.getLast?
  multi : ∀ i, getMultivalue k i s.store = vs[i]?
  int : ∀ d, (s.getIntval k d).1 = ((getValue k s.store).bind intReading).getD d

/-! ## 4. Single operations -/

section Operations

variable {s : Store} {pre key0 key val k : Path}

theorem putValue_room (hroom : s.Room pre) (hval : val.length < Cmd.VAL_MAX_LEN) :
    ∃ i slots, putValue pre key0 val s =
      .ok ⟨⟨normal (pre ++ key0), val, some i⟩ :: s.mcs, slots⟩ := by
  have hfits : ¬ (PRE_LEN ≤ pre.length ∨ Cmd.VAL_MAX_LEN ≤ val.length) := by
    rw [not_or, Nat.not_le, Nat.not_le]
    exact ⟨hroom.1, hval⟩
  rw [putValue, if_neg hfits]
  simp only [if_pos hroom.2]
  split
  · exact ⟨_, _, rfl⟩
  · exact ⟨_, _, rfl⟩

theorem normal_update (h : normal key = key) : normal (updatePre key ++ updateKey0 key) = key := by
  unfold updatePre updateKey0
  by_cases h95 : 95 ∈ key
  · rw [if_pos h95, if_pos h95]
    obtain ⟨a, b, rfl, ha⟩ := eq_append_cons_of_mem h95
    rw [takeWhile_ne_append_cons ha, dropWhile_ne_append_cons ha]
    have hsep : keyByte 45 = keyByte 95 := by decide
    rw [← h]
    simp [normal, hsep]
  · rw [if_neg h95, if_neg h95]
    exact h

theorem updateValue_new (h : (s.mcs.any fun m => m.key == key) = false)
    (hlen : s.Room (updatePre key)) (hkey0 : 95 ∈ key → (updateKey0 key).length < 30) :
    updateValue key val s = putValue (updatePre key) (updateKey0 key) val s := by
  rw [updateValue, h, if_neg Bool.false_ne_true]
  have hpre := hlen.1
  unfold updatePre updateKey0 at *
  by_cases h95 : 95 ∈ key
  · simp only [if_pos h95, length_append, length_singleton] at hpre hkey0 ⊢
    have hkey := hkey0 h95
    rw [if_neg (by omega)]
  · simp only [if_neg h95]

theorem updateValue_old (h : (s.mcs.any fun m => m.key == key) = true)
    (hval : val.length < Cmd.VAL_MAX_LEN) :
    updateValue key val s = .ok { s with mcs := setVal key val s.mcs } := by
  rw [updateValue, if_pos h, if_pos hval]

theorem deleteValue_slots (h : ∀ m ∈ s.mcs, m.slot ≠ none) :
    deleteValue pre key s =
      .ok { s with mcs := s.mcs.filter fun m => m.key != (pre ++ key).map sepByte } := by
  unfold deleteValue
  simp only
  rw [if_neg]
  intro hany
  obtain ⟨m, hm, hnone⟩ := any_eq_true.mp hany
  rw [Bool.and_eq_true, beq_iff_eq, beq_iff_eq] at hnone
  exact h m hm hnone.2

theorem setVal_eq_modify (ms : List Mc) :
    setVal key val ms = ms.modify (ms.findIdx fun m => m.key == key) fun m =>
      { m with val := val } := by
  induction ms with
  | nil => rfl
  | cons m ms ih =>
    rw [setVal, findIdx_cons]
    by_cases hm : m.key = key
    · rw [if_pos hm, beq_iff_eq.mpr hm]
      rfl
    · rw [if_neg hm, beq_false_of_ne hm, ih]
      rfl

theorem setVal_other (hk : k ≠ key) (ms : List Mc) :
    ((setVal key val ms).filter fun m => m.key == k) = ms.filter fun m => m.key == k := by
  induction ms with
  | nil => rfl
  | cons m ms ih =>
    rw [setVal]
    split
    · rename_i hm
      have hne : (m.key == k) = false := beq_false_of_ne fun he => hk (he.symm.trans hm)
      simp [hne]
    · rw [filter_cons, filter_cons, ih]

theorem setVal_self {ms : List Mc} (h : (ms.any fun m => m.key == key) = true) :
    ((setVal key val ms).filter fun m => m.key == key).map Mc.val =
      val :: ((ms.filter fun m => m.key == key).map Mc.val).tail := by
  induction ms with
  | nil => cases h
  | cons m ms ih =>
    rw [setVal]
    by_cases hm : m.key = key
    · simp [hm]
    rw [if_neg hm, filter_cons_of_neg (by simpa using hm),
      filter_cons_of_neg (by simpa using hm)]
    refine ih ?_
    rwa [any_cons, beq_false_of_ne hm, Bool.false_or] at h

end Operations

/-! ## 5. The invariant -/

/-- The store and what was written say the same. -/
structure Agrees (s : IntStore) (m : Multimap Path Path) : Prop where
  length : s.ints.length = s.store.mcs.length
  values : ∀ k, valuesOf k s.store = (m k).reverse
  ints : ∀ (i : Nat) (e : Mc) (n : Int), s.store.mcs[i]? = some e → s.ints[i]? = some n →
    n = -1 ∨ intReading e.val = some n
  slots : ∀ e ∈ s.store.mcs, e.slot ≠ none

theorem agrees_empty : Agrees IntStore.empty Multimap.empty where
  length := rfl
  values := fun _ => rfl
  ints := fun i e n he => by simp [IntStore.empty, Store.empty] at he
  slots := fun e he => by cases he

section Steps

variable {s : IntStore} {m : Multimap Path Path} {pre key0 key val k : Path}

theorem place_eq (s : IntStore) : s.place k = s.store.mcs.findIdx fun e => e.key == k := by
  unfold IntStore.place
  congr 1
  funext e
  rw [found_iff, myhash_found]

theorem Agrees.put (h : Agrees s m) (i : Nat) (slots : List Path) (k v : Path) :
    Agrees ⟨⟨⟨k, v, some i⟩ :: s.store.mcs, slots⟩, -1 :: s.ints⟩ (m.put k v) where
  length := congrArg (· + 1) h.length
  values := fun x => by
    have hx := h.values x
    unfold valuesOf at hx ⊢
    by_cases he : x = k
    · subst he
      rw [filter_cons_of_pos (by simp), map_cons, hx, Multimap.put, update_self,
        reverse_concat]
    · rw [filter_cons_of_neg (by simpa using Ne.symm he), hx, Multimap.put,
        update_of_ne he]
  ints := fun j e n he hn => by
    cases j with
    | zero => exact .inl (Option.some.inj hn).symm
    | succ j => exact h.ints j e n he hn
  slots := forall_mem_cons.mpr ⟨Option.some_ne_none i, h.slots⟩

theorem Agrees.delete (h : Agrees s m) (hkey : (pre ++ key).map sepByte = normal (pre ++ key)) :
    ∃ s', s.deleteValue pre key = .ok s' ∧ Agrees s' (m.erase (normal (pre ++ key))) := by
  unfold IntStore.deleteValue
  rw [deleteValue_slots h.slots, hkey]
  generalize normal (pre ++ key) = k
  refine ⟨_, rfl, ?_⟩
  -- what is left of the entries, and of their integers
  let rest := (s.store.mcs.zip s.ints).filter fun e => e.1.key != k
  have hmcs : s.store.mcs.filter (fun e => e.key != k) = rest.map Prod.fst := by
    conv_lhs => rw [← map_fst_zip (Nat.le_of_eq h.length.symm), filter_map]
    rfl
  refine ⟨?_, fun x => ?_, fun i e n he hn => ?_, fun e he => h.slots e (mem_of_mem_filter he)⟩
  · show (rest.map Prod.snd).length = (s.store.mcs.filter fun e => e.key != k).length
    rw [hmcs, length_map, length_map]
  · have hx := h.values x
    unfold valuesOf at hx ⊢
    simp only
    rw [filter_filter]
    by_cases he : x = k
    · subst he
      rw [Multimap.erase, update_self, filter_eq_nil_iff.mpr]
      · rfl
      · intro e _
        simp
    · rw [Multimap.erase, update_of_ne he, ← hx]
      congr 1
      refine filter_congr fun e _ => ?_
      by_cases hek : e.key = x
      · rw [hek, bne_iff_ne.mpr he, Bool.and_true]
      · rw [beq_false_of_ne hek, Bool.false_and]
  · have he' : (rest.map Prod.fst)[i]? = some e := hmcs ▸ he
    have hn' : (rest.map Prod.snd)[i]? = some n := hn
    rw [getElem?_map, Option.map_eq_some_iff] at he' hn'
    obtain ⟨x, hx, rfl⟩ := he'
    obtain ⟨y, hy, rfl⟩ := hn'
    cases hx.symm.trans hy
    have hmem := mem_of_mem_filter (mem_of_getElem? hx)
    obtain ⟨j, hj⟩ := getElem?_of_mem hmem
    obtain ⟨hj1, hj2⟩ := getElem?_zip_eq_some.mp hj
    exact h.ints j x.1 x.2 hj1 hj2

theorem Agrees.rewrite (h : Agrees s m) (hany : (s.store.mcs.any fun e => e.key == key) = true)
    (hkept : s.kept key = -1 ∨ intReading val = some (s.kept key)) :
    Agrees { s with store := { s.store with mcs := setVal key val s.store.mcs } }
      (m.rewrite key val) where
  length := by
    rw [setVal_eq_modify, length_modify]
    exact h.length
  values := fun x => by
    have hx := h.values x
    unfold valuesOf at hx ⊢
    by_cases he : x = key
    · subst he
      rw [setVal_self hany, hx, Multimap.rewrite, update_self, reverse_concat, tail_reverse]
    · rw [setVal_other he, hx, Multimap.rewrite, update_of_ne he]
  ints := fun i e n he hn => by
    rw [setVal_eq_modify, ← place_eq] at he
    by_cases hi : s.place key = i
    · subst hi
      rw [getElem?_modify_eq] at he
      obtain ⟨e', -, rfl⟩ := Option.map_eq_some_iff.mp he
      have hk : s.kept key = n := by rw [IntStore.kept, getD_eq_getElem?_getD, hn, Option.getD_some]
      rwa [hk] at hkept
    · rw [getElem?_modify_ne _ _ hi] at he
      exact h.ints i e n he hn
  slots := fun e he => by
    obtain he | ⟨e', he', rfl⟩ := setVal_mem he
    · exact h.slots e he
    · exact h.slots e' he'

theorem Agrees.rewrite_new (h : Agrees s m)
    (hnone : (s.store.mcs.any fun e => e.key == key) = false) :
    m.rewrite key val = m.put key val := by
  have hnil : m key = [] := by
    have hk := h.values key
    have hfilter : (s.store.mcs.filter fun e => e.key == key) = [] :=
      filter_eq_nil_iff.mpr fun e he => by simpa using any_eq_false.mp hnone e he
    rw [valuesOf, hfilter, map_nil] at hk
    exact reverse_eq_nil_iff.mp hk.symm
  rw [Multimap.rewrite, Multimap.put, hnil]
  rfl

theorem Agrees.getIntval (h : Agrees s m) (k : Path) (d : Int) : Agrees (s.getIntval k d).2 m := by
  unfold IntStore.getIntval
  split
  · exact h
  rename_i e he
  split
  · split
    · exact h
    rename_i n hn
    refine ⟨(length_set ..).trans h.length, h.values, fun i e' n' he' hn' => ?_, h.slots⟩
    by_cases hi : s.place k = i
    · subst hi
      cases he.symm.trans he'
      rw [getElem?_set_self', Option.map_eq_map, Option.map_eq_some_iff] at hn'
      obtain ⟨-, -, rfl⟩ := hn'
      exact .inr hn
    · rw [getElem?_set_ne hi] at hn'
      exact h.ints i e' n' he' hn'
  · exact h

/-- **A step that meets `Fine` goes through, and keeps the agreement.** -/
theorem agrees_step (h : Agrees s m) (a : ConfAct) (hfine : Fine s a) :
    ∃ s', confStep s a = some s' ∧ Agrees s' (a.apply m) := by
  cases a with
  | put pre key0 val =>
    obtain ⟨i, slots, hput⟩ := @putValue_room s.store pre key0 val hfine.1 hfine.2
    refine ⟨_, ?_, h.put i slots (normal (pre ++ key0)) val⟩
    rw [confStep, IntStore.putValue, hput]
    rfl
  | delete pre key =>
    obtain ⟨s', hdel, hs'⟩ := h.delete hfine
    refine ⟨s', ?_, hs'⟩
    rw [confStep, hdel]
    rfl
  | update key val =>
    obtain ⟨hkey, hval, hkept, hnew⟩ := hfine
    have happly : (ConfAct.update key val).apply m = m.rewrite key val := by
      rw [ConfAct.apply, hkey]
    rw [happly]
    cases hany : s.store.mcs.any fun e => e.key == key with
    | true =>
      refine ⟨_, ?_, h.rewrite hany hkept⟩
      rw [confStep, IntStore.updateValue, updateValue_old hany hval, hany]
      rfl
    | false =>
      obtain ⟨hroom, hkey0⟩ := hnew hany
      obtain ⟨i, slots, hput⟩ := @putValue_room s.store _ (updateKey0 key) val hroom hval
      rw [h.rewrite_new hany]
      refine ⟨_, ?_, h.put i slots key val⟩
      rw [normal_update hkey] at hput
      rw [confStep, IntStore.updateValue, updateValue_new hany hroom hkey0, hput, hany]
      rfl
  | getIntval k d => exact ⟨_, rfl, h.getIntval k d⟩

theorem agrees_exec (acts : List ConfAct) {s : IntStore} {m : Multimap Path Path} (h : Agrees s m)
    (hmeets : Meets confStep Fine s acts) :
    ∃ s', exec confStep s acts = some s' ∧ Agrees s' (acts.foldl ConfAct.apply m) :=
  exec_simulates Agrees ConfAct.apply (fun _ _ a h hfine => agrees_step h a hfine) h hmeets

/-! ## 6. Lookups -/

theorem getIntval_eq (h : Agrees s m) (k : Path) (d : Int) :
    (s.getIntval k d).1 = ((getValue k s.store).bind intReading).getD d := by
  have hfind : getValue k s.store = (s.store.mcs[s.place k]?).map Mc.val := by
    rw [getValue_eq, valuesOf, head?_map, head?_filter, find?_eq_getElem?_findIdx, place_eq]
  unfold IntStore.getIntval
  rw [hfind]
  cases he : s.store.mcs[s.place k]? with
  | none => rfl
  | some e =>
    simp only [Option.map_some, Option.bind_some]
    by_cases hk : s.kept k = -1
    · rw [if_pos hk]
      cases intReading e.val with
      | none => rfl
      | some n => rfl
    · rw [if_neg hk]
      have hlt : s.place k < s.ints.length := h.length ▸ (List.getElem?_eq_some_iff.mp he).1
      have hn : s.ints[s.place k]? = some (s.kept k) := by
        rw [IntStore.kept, getD_eq_getElem?_getD, getElem?_eq_getElem hlt, Option.getD_some]
      rw [(h.ints _ e _ he hn).resolve_left hk]
      rfl

theorem Agrees.answers (h : Agrees s m) (k : Path) : Answers s k (m k) where
  value := by rw [getValue_eq, h.values, head?_reverse]
  multi := fun i => by rw [getMultivalue_eq, h.values, reverse_reverse]
  int := getIntval_eq h k

end Steps

/-- **The store is a multimap**: after every history whose steps meet `Fine`, each lookup of a key
    as it is stored gives what was written to that key. -/
theorem config_multimap (acts : List ConfAct) (h : Meets confStep Fine IntStore.empty acts) :
    ∃ s, exec confStep IntStore.empty acts = some s ∧
      ∀ k, normal k = k → Answers s k (written acts (normal k)) := by
  obtain ⟨s, hs, hagrees⟩ := agrees_exec acts agrees_empty h
  refine ⟨s, hs, fun k hk => ?_⟩
  rw [hk]
  exact hagrees.answers k

instance (s : IntStore) (a : ConfAct) : Decidable (Fine s a) :=
  match a with
  | .put _ _ _ => inferInstanceAs (Decidable (_ ∧ _))
  | .delete _ _ => inferInstanceAs (Decidable (_ = _))
  | .update _ _ => inferInstanceAs (Decidable (_ ∧ _ ∧ _ ∧ (_ → _ ∧ (_ → _))))
  | .getIntval _ _ => inferInstanceAs (Decidable True)

/-- Two values of a key, the integer of the newer one, a new key, and one that is deleted. -/
def someActs : List ConfAct :=
  [.put (ascii "Sync-") (ascii "Dir") (ascii "On"), .put (ascii "sync-") (ascii "dir") (ascii "7"),
    .getIntval (ascii "sync_dir") 3, .update (ascii "log_level") (ascii "5"),
    .put [] (ascii "port") (ascii "80"), .delete [] (ascii "port")]

theorem config_multimap_someActs :
    ∃ s, exec confStep IntStore.empty someActs = some s ∧
      getMultivalue (ascii "sync_dir") 0 s.store = some (ascii "On") ∧
      (s.getIntval (ascii "sync_dir") 3).1 = 7 ∧ getValue (ascii "log_level") s.store =
        some (ascii "5") ∧
      getValue (ascii "port") s.store = none := by
  obtain ⟨s, hs, h⟩ := config_multimap someActs (by decide +kernel)
  refine ⟨s, hs, ?_, ?_, ?_, ?_⟩
  · rw [(h (ascii "sync_dir") (by decide)).multi]
    decide
  · rw [(h (ascii "sync_dir") (by decide)).int, (h (ascii "sync_dir") (by decide)).value]
    decide
  · rw [(h (ascii "log_level") (by decide)).value]
    decide
  · rw [(h (ascii "port") (by decide)).value]
    decide

/-- **Keys in upper case and integers that were read go wrong.** A value that was put under "Key" is
    not found under "Key", and deleting "Key" does not remove it; after "5" was read as an integer
    and replaced by "7", the value is "7" and the integer is still 5. -/
theorem config_multimap_fails :
    (∃ s, exec confStep IntStore.empty [.put [] (ascii "Key") (ascii "1")] = some s ∧
      getValue (ascii "Key") s.store = none ∧
      written [.put [] (ascii "Key") (ascii "1")] (normal (ascii "Key")) = [ascii "1"]) ∧
    (∃ s, exec confStep IntStore.empty
        [.put [] (ascii "Key") (ascii "1"), .delete [] (ascii "Key")] = some s ∧
      getValue (ascii "key") s.store = some (ascii "1") ∧
      written [.put [] (ascii "Key") (ascii "1"), .delete [] (ascii "Key")] (ascii "key") = []) ∧
    ∃ s, exec confStep IntStore.empty [.put [] (ascii "key") (ascii "5"),
      .getIntval (ascii "key") 0,
        .update (ascii "key") (ascii "7")] = some s ∧
      getValue (ascii "key") s.store = some (ascii "7") ∧ (s.getIntval (ascii "key") 0).1 = 5 :=
  ⟨⟨_, rfl, by decide, by decide⟩, ⟨_, rfl, by decide, by decide⟩, ⟨_, rfl, by decide, by decide⟩⟩

end Pfs.Conf
