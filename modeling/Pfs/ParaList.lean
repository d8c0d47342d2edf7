/-
  Lists of parameters (`SetParaValue`, `EncodePara`, `DecodePara`, `parsepara` of
  network/parsepara.c) for a list of any capacity.

  A list comes from `malloc`, so an entry may be one that was never written.

  Main results: `paraList_roundtrip`, `paraList_last_lost`.
-/
import Pfs.Topology

namespace Pfs

open Lib List

/-! ## 1. Lists -/

def MAX_NAME_LEN : Nat := 200
def MAX_VALUE_LEN : Nat := 4 * 1024

abbrev StringPair := List UInt8 × List UInt8

/-- An entry: name and value, `none` where nothing was written yet. -/
structure ParaSlot where
  first : Option (List UInt8)
  second : Option (List UInt8)
  deriving DecidableEq

/-- `StringPairList`: `iLast` and the array, whose length is `iMaxPairNum`. -/
structure PairList where
  last : Nat
  slots : List ParaSlot
  deriving DecidableEq

/-- `CreateStringPairList` -/
def createStringPairList (n : Nat) : PairList := ⟨0, List.replicate n ⟨none, none⟩⟩

/-- An entry as it is read: a name that was never written is what was in the memory. -/
def readSlot (junk : List UInt8) (s : ParaSlot) : StringPair :=
  (s.first.getD junk, s.second.getD [])

/-- `shouldencode` -/
def shouldencode (c : UInt8) : Bool := c = 61 ∨ c = 38 ∨ c = 37

/-- `sHexTable` -/
def hexDigit (n : Nat) : UInt8 := UInt8.ofNat (if n < 10 then 48 + n else 55 + n)

/-- `encode_string` -/
def encodeString (s : List UInt8) : List UInt8 :=
  (cText s).flatMap fun c =>
    if shouldencode c then [37, hexDigit (c.toNat / 16), hexDigit (c.toNat % 16)] else [c]

/-- `SetParaValue`; `none` where -1 is returned. -/
def setParaValue (l : PairList) (name value : List UInt8) : Except Fault (Option PairList) :=
  if l.slots.length ≤ l.last then .ok none
  else if 2 * MAX_VALUE_LEN ≤ (encodeString value).length then .error .overflow
  else
    .ok (some ⟨l.last + 1, l.slots.set l.last
      ⟨some ((cText name).take (MAX_NAME_LEN - 1)),
        some ((encodeString value).take (MAX_VALUE_LEN - 1))⟩⟩)

/-- A list that is filled with `SetParaValue`. -/
def setAll (l : PairList) : List (List UInt8 × List UInt8) → Except Fault (Option PairList)
  | [] => .ok (some l)
  | p :: ps =>
    match setParaValue l p.1 p.2 with
    | .ok (some l') => setAll l' ps
    | r => r

/-- The loop of `EncodePara`, with a buffer of `size` bytes; `none` where an entry was never
    written. -/
def encodeLoop (size : Nat) : List ParaSlot → List UInt8 → Option (List UInt8)
  | [], out => some out
  | ⟨some n, some v⟩ :: rest, out =>
    if size ≤ out.length + n.length + v.length + 2 then some out
    else encodeLoop size rest (out ++ (n ++ 61 :: v ++ [38]))
  | _ :: _, _ => none

/-- `EncodePara`: the text, without the last '&'. -/
def encodePara (l : PairList) (size : Nat) : Option (List UInt8) :=
  (encodeLoop size (l.slots.take l.last) []).map List.dropLast

/-! ## 2. The splitter -/

/-- The variables of `parsepara`: the array, the current entry, the part of `sBuffer` in use, and
    `chFlag`. -/
structure ParaRun where
  slots : List ParaSlot
  idx : Nat
  buf : List UInt8
  flag : Bool

/-- A write to the current entry, which may be behind the array. -/
def writeSlot (slots : List ParaSlot) (i : Nat) (f : ParaSlot → ParaSlot) :
    Except Fault (List ParaSlot) :=
  if i < slots.length then .ok (slots.modify i f) else .error .overflow

/-- The loop of `parsepara`; the flag is `false` where -1 is returned. -/
def pairLoop : List UInt8 → ParaRun → Except Fault (Bool × ParaRun)
  | [], r => .ok (true, r)
  | ch :: rest, r =>
    if ch = 61 then
      match writeSlot r.slots r.idx fun s =>
        { s with first := some (r.buf.take (MAX_NAME_LEN - 1)) } with
      | .error f => .error f
      | .ok slots => pairLoop rest ⟨slots, r.idx, [], true⟩
    else if ch = 38 ∨ ch = 0 then
      match writeSlot r.slots r.idx fun s =>
        { s with second := some (r.buf.take (MAX_VALUE_LEN - 1)) } with
      | .error f => .error f
      | .ok slots =>
        if r.flag = false then .ok (false, { r with slots := slots })
        -- `pMax` is two entries in front of the end
        else if slots.length ≤ r.idx + 1 + 2 then .ok (true, ⟨slots, r.idx + 1, [], true⟩)
        else pairLoop rest ⟨slots, r.idx + 1, [], false⟩
    else if MAX_NAME_LEN + MAX_VALUE_LEN ≤ r.buf.length then .error .overflow
    else pairLoop rest { r with buf := r.buf ++ [ch] }

/-- The end of `parsepara`: the last value, and an empty entry behind it. -/
def pairEnd (r : ParaRun) : Except Fault (Option Nat × List ParaSlot) :=
  if r.flag = false then .ok (none, r.slots)
  else if MAX_VALUE_LEN ≤ r.buf.length then .error .overflow
  else
    match writeSlot r.slots r.idx fun s => { s with second := some r.buf } with
    | .error f => .error f
    | .ok slots =>
      match writeSlot slots (r.idx + 1) fun _ => ⟨some [], some []⟩ with
      | .error f => .error f
      | .ok slots => .ok (some (r.idx + 1), slots)

/-- `parsepara` behind its loop. -/
def pairDone : Bool × ParaRun → Except Fault (Option Nat × List ParaSlot)
  | (false, r) => .ok (none, r.slots)
  | (true, r) => pairEnd r

/-- `parsepara`: the number of pairs (`none` where -1 is returned) and the array. -/
def parseparaInto (slots : List ParaSlot) (len : Int) (data : List UInt8) :
    Except Fault (Option Nat × List ParaSlot) :=
  if len = 0 then .ok (some 0, slots)
  else (pairLoop (data.take len.toNat) ⟨slots, 0, [], false⟩).bind pairDone

/-- `DecodePara`: the result and the list. -/
def decodePara (req : List UInt8) (len : Int) (l : PairList) : Except Fault (Int × PairList) :=
  match parseparaInto l.slots len req with
  | .error f => .error f
  | .ok (none, slots) => .ok (-1, { l with slots := slots })
  | .ok (some n, slots) => .ok (0, ⟨n, slots⟩)

/-! ## 3. Texts -/

def Plain (w : List UInt8) : Prop := ∀ c ∈ w, c ≠ 61 ∧ c ≠ 38 ∧ c ≠ 0

instance (w : List UInt8) : Decidable (Plain w) := List.decidableBAll _ _

/-- A pair that can be told apart in a text: name and value fit, and the name has no separator. -/
def PairOk (p : List UInt8 × List UInt8) : Prop :=
  p.1.length < MAX_NAME_LEN ∧ Plain p.1 ∧ (encodeString p.2).length < MAX_VALUE_LEN

instance (p : List UInt8 × List UInt8) : Decidable (PairOk p) := inferInstanceAs (Decidable (_ ∧ _))

def slotOf (p : List UInt8 × List UInt8) : ParaSlot := ⟨some p.1, some (encodeString p.2)⟩

/-- "name=value" -/
def pairText (p : List UInt8 × List UInt8) : List UInt8 := p.1 ++ 61 :: encodeString p.2

def paraText : List (List UInt8 × List UInt8) → List UInt8
  | [] => []
  | [p] => pairText p
  | p :: q :: ps => pairText p ++ 38 :: paraText (q :: ps)

theorem hexDigit_plain {n : Nat} (h : n < 16) :
    hexDigit n ≠ 61 ∧ hexDigit n ≠ 38 ∧ hexDigit n ≠ 0 := by
  have hall : ∀ n < 16, hexDigit n ≠ 61 ∧ hexDigit n ≠ 38 ∧ hexDigit n ≠ 0 := by decide
  exact hall n h

theorem encodeString_plain (s : List UInt8) : Plain (encodeString s) := by
  intro c hc
  obtain ⟨d, hd, hc⟩ := mem_flatMap.mp hc
  have hlt := d.toNat_lt
  split at hc
  · simp only [mem_cons, not_mem_nil, or_false] at hc
    rcases hc with rfl | rfl | rfl
    · decide
    · exact hexDigit_plain (by omega)
    · exact hexDigit_plain (by omega)
  · rename_i henc
    rw [mem_singleton.mp hc]
    simp only [shouldencode, decide_eq_true_eq, not_or] at henc
    refine ⟨henc.1, henc.2.1, ?_⟩
    simpa using mem_takeWhile_imp hd

/-! ## 4. The loop on texts -/

section Loop

variable {slots : List ParaSlot} {k : Nat}

theorem pairLoop_plain {w rest : List UInt8} (hw : Plain w) {r : ParaRun}
    (hlen : r.buf.length + w.length ≤ MAX_NAME_LEN + MAX_VALUE_LEN) :
    pairLoop (w ++ rest) r = pairLoop rest { r with buf := r.buf ++ w } := by
  induction w generalizing r with
  | nil => simp
  | cons c w ih =>
    obtain ⟨h61, h38, h0⟩ := hw c mem_cons_self
    rw [length_cons] at hlen
    rw [cons_append, pairLoop, if_neg h61, if_neg (not_or.mpr ⟨h38, h0⟩),
      if_neg (by omega), ih (fun x hx => hw x (mem_cons_of_mem _ hx))
        (by simp only [length_append, length_singleton]; omega)]
    simp

theorem pairLoop_name {n rest : List UInt8} (hn : Plain n) (hlen : n.length < MAX_NAME_LEN)
    (hk : k < slots.length) (flag : Bool) :
    pairLoop (n ++ 61 :: rest) ⟨slots, k, [], flag⟩ =
      pairLoop rest ⟨slots.modify k fun s => { s with first := some n }, k, [], true⟩ := by
  have htake : n.take (MAX_NAME_LEN - 1) = n := take_of_length_le (by omega)
  rw [pairLoop_plain hn (by simp only [length_nil]; omega), nil_append, pairLoop,
    if_pos rfl, writeSlot, if_pos hk, htake]

theorem modify_slot (n v : List UInt8) :
    (slots.modify k fun s => { s with first := some n }).modify k
        (fun s => { s with second := some v }) = slots.set k ⟨some n, some v⟩ := by
  apply ext_getElem?
  intro i
  by_cases hi : k = i
  · subst hi
    simp only [getElem?_modify_eq, getElem?_set_self']
    cases slots[k]? <;> rfl
  · simp [hi, getElem?_set_ne hi]

theorem pairLoop_pair {p : List UInt8 × List UInt8} {rest : List UInt8} (hp : PairOk p)
    (hk : k < slots.length) :
    pairLoop (pairText p ++ 38 :: rest) ⟨slots, k, [], false⟩ =
      if slots.length ≤ k + 1 + 2 then .ok (true, ⟨slots.set k (slotOf p), k + 1, [], true⟩)
      else pairLoop rest ⟨slots.set k (slotOf p), k + 1, [], false⟩ := by
  obtain ⟨hname, hplain, hvalue⟩ := hp
  have htake : (encodeString p.2).take (MAX_VALUE_LEN - 1) = encodeString p.2 :=
    take_of_length_le (by omega)
  rw [pairText, append_assoc, cons_append, pairLoop_name hplain hname hk,
    pairLoop_plain (encodeString_plain _) (by simp only [length_nil]; omega),
    nil_append, pairLoop, if_neg (by decide), if_pos (.inl rfl), writeSlot,
    if_pos (by rwa [length_modify]), htake, modify_slot]
  simp [slotOf]

theorem pairEnd_eq {v : List UInt8} (hv : v.length < MAX_VALUE_LEN) (hk : k < slots.length) :
    pairEnd ⟨slots, k, v, true⟩ =
      if k + 1 < slots.length then
        .ok (some (k + 1), (slots.modify k fun s => { s with second := some v }).set (k + 1)
          ⟨some [], some []⟩)
      else .error .overflow := by
  have hset (l : List ParaSlot) : (l.modify (k + 1) fun _ => ⟨some [], some []⟩) =
      l.set (k + 1) ⟨some [], some []⟩ := by
    apply ext_getElem?
    intro i
    by_cases hi : k + 1 = i
    · subst hi
      simp only [getElem?_modify_eq, getElem?_set_self']
      cases l[k + 1]? <;> rfl
    · simp [hi, getElem?_set_ne hi]
  rw [pairEnd, if_neg (by simp), if_neg (by simp only; omega), writeSlot, if_pos hk]
  by_cases hk1 : k + 1 < slots.length <;> simp [writeSlot, hk1, hset]

theorem pairLoop_last {p : List UInt8 × List UInt8} (hp : PairOk p) (hk : k < slots.length) :
    (pairLoop (pairText p) ⟨slots, k, [], false⟩).bind pairDone =
      if k + 1 < slots.length then
        .ok (some (k + 1), (slots.set k (slotOf p)).set (k + 1) ⟨some [], some []⟩)
      else .error .overflow := by
  obtain ⟨hname, hplain, hvalue⟩ := hp
  have hend := @pairLoop_plain _ [] (encodeString_plain p.2)
    ⟨slots.modify k fun s => { s with first := some p.1 }, k, [], true⟩
    (by simp only [length_nil]; omega)
  rw [append_nil, nil_append] at hend
  rw [pairText, pairLoop_name hplain hname hk, hend, pairLoop, Except.bind, pairDone,
    pairEnd_eq hvalue (by rwa [length_modify]), length_modify, modify_slot]
  rfl

/-- **Pairs that leave two entries free**, or one pair: all entries are filled. -/
theorem pairLoop_pairs {ps : List (List UInt8 × List UInt8)} (hne : ps ≠ [])
    (hok : ∀ p ∈ ps, PairOk p) (hk : k + 1 < slots.length)
    (hroom : ps.length = 1 ∨ k + ps.length + 2 ≤ slots.length) :
    ∃ out, (pairLoop (paraText ps) ⟨slots, k, [], false⟩).bind pairDone =
        .ok (some (k + ps.length), out) ∧
      out.take (k + ps.length) = slots.take k ++ ps.map slotOf := by
  induction ps generalizing slots k with
  | nil => exact absurd rfl hne
  | cons p ps ih =>
    have hp := hok p mem_cons_self
    have hset : (slots.set k (slotOf p)).take (k + 1) = slots.take k ++ [slotOf p] := by
      rw [take_add_one, getElem?_set_self (by omega),
        take_set_of_le (Nat.le_refl k)]
      rfl
    cases ps with
    | nil =>
      refine ⟨_, by rw [paraText, pairLoop_last hp (by omega), if_pos hk]; rfl, ?_⟩
      rw [length_singleton, take_set_of_le (Nat.le_refl _), hset]
      rfl
    | cons q ps =>
      have hlong : k + (p :: q :: ps).length + 2 ≤ slots.length := by
        rcases hroom with h | h
        · simp at h
        · exact h
      simp only [length_cons] at hlong
      obtain ⟨out, hout, htake⟩ := @ih (slots.set k (slotOf p)) (k + 1) (by simp)
        (fun x hx => hok x (mem_cons_of_mem _ hx)) (by rw [length_set]; omega)
        (.inr (by rw [length_set, length_cons]; omega))
      have hidx : k + 1 + (q :: ps).length = k + (p :: q :: ps).length := by
        simp only [length_cons]
        omega
      rw [hidx] at hout htake
      refine ⟨out, ?_, ?_⟩
      · rw [paraText, pairLoop_pair hp (by omega), if_neg (by omega), hout]
      · rw [htake, hset]
        simp

/-- **Pairs that leave less**: an entry whose name was not written comes back, or the empty entry
    behind it does not fit. -/
theorem pairLoop_full {ps : List (List UInt8 × List UInt8)} (htwo : 2 ≤ ps.length)
    (hok : ∀ p ∈ ps, PairOk p) (hk : k + 1 < slots.length)
    (hroom : slots.length ≤ k + ps.length + 1) :
    (pairLoop (paraText ps) ⟨slots, k, [], false⟩).bind pairDone = .error .overflow ∨
      ∃ m out, k < m ∧
        (pairLoop (paraText ps) ⟨slots, k, [], false⟩).bind pairDone = .ok (some (m + 1), out) ∧
        out[m]?.map ParaSlot.first = slots[m]?.map ParaSlot.first ∧ m < slots.length := by
  induction ps generalizing slots k with
  | nil => simp at htwo
  | cons p ps ih =>
    have hp := hok p mem_cons_self
    cases ps with
    | nil => simp at htwo
    | cons q ps =>
      rw [paraText, pairLoop_pair hp (by omega)]
      split
      · rename_i hfull
        rw [Except.bind, pairDone, pairEnd_eq (by decide) (by rwa [length_set])]
        split
        · refine .inr ⟨k + 1, _, by omega, rfl, ?_, hk⟩
          rw [getElem?_set_ne (by omega), getElem?_modify_eq,
            getElem?_set_ne (by omega)]
          cases slots[k + 1]? <;> rfl
        · exact .inl rfl
      rename_i hfree
      have hq : 2 ≤ (q :: ps).length := by
        simp only [length_cons] at hroom ⊢
        omega
      have hrest := @ih (slots.set k (slotOf p)) (k + 1) hq
        (fun x hx => hok x (mem_cons_of_mem _ hx)) (by rw [length_set]; omega)
        (by
          simp only [length_set, length_cons] at hroom ⊢
          omega)
      rcases hrest with herr | ⟨m, out, hm, hout, hsame, hlt⟩
      · exact .inl herr
      rw [getElem?_set_ne (by omega)] at hsame
      rw [length_set] at hlt
      exact .inr ⟨m, out, by omega, hout, hsame, hlt⟩

end Loop

/-! ## 5. There and back -/

section RoundTrip

variable {ps : List (List UInt8 × List UInt8)}

theorem cText_self {v : List UInt8} (h : 0 ∉ v) : cText v = v :=
  takeWhile_eq_self_iff.mpr (bne_of_notMem h)

theorem setAll_eq {l : PairList} (hok : ∀ p ∈ ps, PairOk p)
    (hroom : l.last + ps.length ≤ l.slots.length) :
    ∃ slots, setAll l ps = .ok (some ⟨l.last + ps.length, slots⟩) ∧
      slots.take (l.last + ps.length) = l.slots.take l.last ++ ps.map slotOf := by
  induction ps generalizing l with
  | nil => exact ⟨l.slots, rfl, by simp⟩
  | cons p ps ih =>
    obtain ⟨hname, hplain, hvalue⟩ := hok p mem_cons_self
    rw [length_cons] at hroom
    have hn : (cText p.1).take (MAX_NAME_LEN - 1) = p.1 := by
      rw [cText_self fun h0 => (hplain 0 h0).2.2 rfl, take_of_length_le (by omega)]
    have hv : (encodeString p.2).take (MAX_VALUE_LEN - 1) = encodeString p.2 :=
      take_of_length_le (by omega)
    have hset : setParaValue l p.1 p.2 =
        .ok (some ⟨l.last + 1, l.slots.set l.last (slotOf p)⟩) := by
      rw [setParaValue, if_neg (by omega), if_neg (by omega), hn, hv]
      rfl
    obtain ⟨slots, hall, htake⟩ := @ih ⟨l.last + 1, l.slots.set l.last (slotOf p)⟩
      (fun x hx => hok x (mem_cons_of_mem _ hx))
      (by simp only [length_set]; omega)
    simp only at hall htake
    have hidx : l.last + 1 + ps.length = l.last + (p :: ps).length := by
      rw [length_cons]
      omega
    rw [hidx] at hall htake
    refine ⟨slots, by rw [setAll, hset]; exact hall, ?_⟩
    rw [htake, take_add_one, getElem?_set_self (by omega),
      take_set_of_le (Nat.le_refl _)]
    simp

def paraLines (ps : List (List UInt8 × List UInt8)) : List UInt8 :=
  ps.flatMap fun p => pairText p ++ [38]

theorem paraLines_dropLast (ps : List (List UInt8 × List UInt8)) :
    (paraLines ps).dropLast = paraText ps := by
  induction ps with
  | nil => rfl
  | cons p ps ih =>
    cases ps with
    | nil => simp [paraLines, paraText]
    | cons q ps =>
      have hne : paraLines (q :: ps) ≠ [] := by simp [paraLines]
      have hcons : paraLines (p :: q :: ps) = pairText p ++ 38 :: paraLines (q :: ps) := by
        simp [paraLines]
      rw [hcons, paraText, ← ih, dropLast_append_of_ne_nil (by simp),
        dropLast_cons_of_ne_nil hne]

theorem encodeLoop_eq {size : Nat} {out : List UInt8}
    (hsize : out.length + (paraLines ps).length < size) :
    encodeLoop size (ps.map slotOf) out = some (out ++ paraLines ps) := by
  induction ps generalizing out with
  | nil => simp [encodeLoop, paraLines]
  | cons p ps ih =>
    have hcons : paraLines (p :: ps) = p.1 ++ 61 :: encodeString p.2 ++ [38] ++ paraLines ps := by
      simp [paraLines, pairText]
    rw [hcons] at hsize ⊢
    simp only [length_append, length_cons, length_nil] at hsize
    rw [map_cons, slotOf, encodeLoop, if_neg (by omega), ih]
    · simp
    · simp only [length_append, length_cons, length_nil]
      omega

/-- The list of `ps` with room for `cap` pairs, written to a buffer of `size` bytes and read into a
    fresh list, comes back: as many pairs, each with its name and its escaped value. -/
def RoundTrips (cap size : Nat) (ps : List (List UInt8 × List UInt8)) : Prop :=
  ∃ l text l', setAll (createStringPairList cap) ps = .ok (some l) ∧
    encodePara l size = some text ∧
    decodePara text (Int.bmod text.length (2 ^ 32)) (createStringPairList cap) = .ok (0, l') ∧
    l'.last = ps.length ∧ l'.slots.take l'.last = ps.map slotOf

theorem paraText_ne_nil (h : ps ≠ []) : paraText ps ≠ [] := by
  match ps with
  | [] => exact absurd rfl h
  | [p] => simp [paraText, pairText]
  | p :: q :: ps => simp [paraText]

theorem bmod_length {n : Nat} (h : n < 2 ^ 31) : Int.bmod n (2 ^ 32) = n :=
  Int.bmod_eq_of_le (by omega) (by omega)

theorem encodePara_eq {cap size : Nat} (hps : ps.length ≤ cap) (hok : ∀ p ∈ ps, PairOk p)
    (hsize : (paraText ps).length + 1 < size) :
    ∃ l, setAll (createStringPairList cap) ps = .ok (some l) ∧
      encodePara l size = some (paraText ps) := by
  obtain ⟨slots, hall, htake⟩ := @setAll_eq ps (createStringPairList cap) hok
    (by simpa [createStringPairList] using hps)
  refine ⟨_, hall, ?_⟩
  have hlines : (paraLines ps).length < size := by
    have := congrArg List.length (paraLines_dropLast ps)
    rw [length_dropLast] at this
    omega
  rw [encodePara, htake]
  simp only [createStringPairList, take_zero, nil_append]
  rw [encodeLoop_eq (by simpa using hlines), nil_append, Option.map_some, paraLines_dropLast]

/-- **Parameter lists survive**, if the list leaves two entries free or has at most one pair, and
    not otherwise. -/
theorem paraList_roundtrip {cap size : Nat} (hcap : 2 ≤ cap) (hps : ps.length ≤ cap)
    (hok : ∀ p ∈ ps, PairOk p) (hsize : (paraText ps).length + 1 < size)
    (hint : (paraText ps).length < 2 ^ 31) :
    RoundTrips cap size ps ↔ ps.length ≤ 1 ∨ ps.length + 2 ≤ cap := by
  obtain ⟨l, hall, htext⟩ := encodePara_eq hps hok hsize
  have hslots : (createStringPairList cap).slots.length = cap := length_replicate
  -- what `parsepara` is given
  have hparse (hne : ps ≠ []) : parseparaInto (createStringPairList cap).slots
      (Int.bmod (paraText ps).length (2 ^ 32)) (paraText ps) =
        (pairLoop (paraText ps) ⟨(createStringPairList cap).slots, 0, [], false⟩).bind
          pairDone := by
    have hpos := length_pos_of_ne_nil (paraText_ne_nil hne)
    rw [bmod_length hint, parseparaInto, if_neg (by omega), Int.toNat_natCast, take_length]
  constructor
  · rintro ⟨l1, text, l', hall1, htext1, hdec, hlast, htake⟩
    cases hall.symm.trans hall1
    cases htext.symm.trans htext1
    by_contra hfull
    rw [not_or] at hfull
    have hne : ps ≠ [] := by
      rintro rfl
      simp at hfull
    rw [decodePara, hparse hne] at hdec
    rcases @pairLoop_full (createStringPairList cap).slots 0 ps (by omega) hok (by omega)
      (by omega) with herr | ⟨m, out, -, hout, hname, hm⟩
    · rw [herr] at hdec
      cases hdec
    rw [hout] at hdec
    cases hdec
    -- the entry `m` is one of those returned, and its name is not there
    simp only at hlast htake
    have hget : (out.take (m + 1))[m]? = out[m]? := getElem?_take_of_lt (by omega)
    rw [htake, getElem?_map, getElem?_eq_getElem (by omega)] at hget
    rw [← hget, getElem?_eq_getElem hm] at hname
    simp [slotOf, createStringPairList] at hname
  · intro hroom
    by_cases hne : ps = []
    · subst hne
      exact ⟨l, _, ⟨0, (createStringPairList cap).slots⟩, hall, htext, rfl, rfl, by simp⟩
    obtain ⟨out, hout, htake⟩ := @pairLoop_pairs (createStringPairList cap).slots 0 ps hne hok
      (by omega) (by
        have := length_pos_of_ne_nil hne
        rw [hslots]
        omega)
    refine ⟨l, _, ⟨ps.length, out⟩, hall, htext, ?_, rfl, ?_⟩
    · rw [decodePara, hparse hne, hout, Nat.zero_add]
    · rw [Nat.zero_add] at htake
      simpa using htake

/-- Two pairs come back from a list with room for four. -/
theorem paraList_two :
    RoundTrips 4 64 [(ascii "a", ascii "1&2"), (ascii "b", [])] :=
  (paraList_roundtrip (by decide) (by decide) (by decide) (by decide) (by decide)).mpr
    (.inr (by decide))

/-- **With one entry free the last pair is lost**: of "a=1&b=2" the second entry comes back with no
    value and with a name that was never written; and in a list with room for two, an entry behind
    the array is written. -/
theorem paraList_last_lost :
    ((setAll (createStringPairList 3) [(ascii "a", ascii "1"), (ascii "b", ascii "2")]).bind
        fun l => .ok ((l.bind fun l => encodePara l 64))) = .ok (some (ascii "a=1&b=2")) ∧
      decodePara (ascii "a=1&b=2") 7 (createStringPairList 3) =
        .ok (0, ⟨2, [⟨some (ascii "a"), some (ascii "1")⟩, ⟨none, some []⟩, ⟨some [], some []⟩]⟩) ∧
      decodePara (ascii "a=1&b=2") 7 (createStringPairList 2) = .error .overflow :=
  ⟨rfl, rfl, rfl⟩

end RoundTrip

end Pfs
