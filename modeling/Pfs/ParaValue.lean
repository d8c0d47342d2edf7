/-
  One value of a parameter list: `SetParaValue` escapes it, `GetParaValue` finds it by its
  name and unescapes it (network/parsepara.c). The lists are those of `ParaList`.

  `decode_string` goes through the text with an index, compares it with the length less two as
  unsigned numbers, and stops in front of the last byte of the buffer.

  Main results: `paraValue_survives`, `paraValue_longName`.
-/
import Pfs.PossRequest

namespace Pfs.Para

open Lib List

/-! ## 1. The source -/

/-- `get_index`; `none` is -1. -/
def getIndex (ch : UInt8) : Option Nat := if digitValue ch < 16 then some (digitValue ch) else none

/-- `len - 2` as an unsigned number. -/
def endTest (len : Nat) : Nat := (((len : Int) - 2) % 2 ^ 32).toNat

/-- The loop of `decode_string` from `i` on, with `out` in the buffer of `n` bytes: the result, and
    what has been written. -/
def decodeLoop (s : List UInt8) (n i : Nat) (out : List UInt8) : Int × List UInt8 :=
  if hi : i < s.length then
    if s[i] = 37 then
      if endTest s.length ≤ i then (-1, out)
      else
        match getIndex (s.getD (i + 1) 0), getIndex (s.getD (i + 2) 0) with
        | some j, some k =>
          if n ≤ out.length + 1 then (0, out ++ [0])
          else decodeLoop s n (i + 3) (out ++ [UInt8.ofNat (16 * j + k)])
        | _, _ => (-2, out)
    else if n ≤ out.length + 1 then (0, out ++ [0])
    else decodeLoop s n (i + 1) (out ++ [s[i]])
  else (0, out ++ [0])
termination_by s.length - i

/-- `decode_string` -/
def decodeString (s : List UInt8) (n : Nat) : Int × List UInt8 := decodeLoop s n 0 []

/-- `GetParaValue`: the result of `decode_string` with what is in the buffer, `none` where NULL is
    returned. What was in the memory of a name that was never written is `junk`. -/
def getParaValue (junk : List UInt8) (l : PairList) (name : List UInt8) (n : Nat) :
    Option (Int × List UInt8) :=
  (((l.slots.take l.last).map (readSlot junk)).find? fun p => name.map lower == p.1.map lower).map
    fun p => decodeString p.2 n

/-! ## 2. Escapes -/

def escape (c : UInt8) : List UInt8 :=
  if shouldencode c then [37, hexDigit (c.toNat / 16), hexDigit (c.toNat % 16)] else [c]

section Escapes

variable {v s : List UInt8}

theorem encodeString_eq (h : 0 ∉ v) : encodeString v = v.flatMap escape := by
  rw [encodeString, cText_self h]
  rfl

theorem getIndex_hexDigit {k : Nat} (hk : k < 16) : getIndex (hexDigit k) = some k := by
  have hall : ∀ k < 16, getIndex (hexDigit k) = some k := by decide
  exact hall k hk

theorem decodeLoop_byte {n : Nat} {pre rest out : List UInt8} {c : UInt8}
    (hs : s = pre ++ (escape c ++ rest)) (hlen : s.length < 2 ^ 31) (hroom : out.length + 1 < n) :
    decodeLoop s n pre.length out = decodeLoop s n (pre ++ escape c).length (out ++ [c]) := by
  unfold escape at hs ⊢
  have hchar := c.toNat_lt
  split at hs
  · rename_i henc
    rw [if_pos henc]
    have hlt : pre.length + 2 < s.length := by
      rw [hs]
      simp
    have hget : s[pre.length] = 37 := by simp [hs]
    have hget1 : s.getD (pre.length + 1) 0 = hexDigit (c.toNat / 16) := by simp [hs]
    have hget2 : s.getD (pre.length + 2) 0 = hexDigit (c.toNat % 16) := by simp [hs]
    have hend : ¬ endTest s.length ≤ pre.length := by
      unfold endTest
      omega
    have hbyte : UInt8.ofNat (16 * (c.toNat / 16) + c.toNat % 16) = c := by
      rw [Nat.div_add_mod, UInt8.ofNat_toNat]
    rw [decodeLoop, dif_pos (by omega), if_pos hget, if_neg hend, hget1, hget2,
      getIndex_hexDigit (by omega), getIndex_hexDigit (by omega)]
    simp only [if_neg (Nat.not_le.mpr hroom), hbyte, length_append, length_cons, length_nil]
  · rename_i henc
    rw [if_neg henc]
    have hlt : pre.length < s.length := by
      rw [hs]
      simp
    have hget : s[pre.length] = c := by simp [hs]
    have hne : c ≠ 37 := fun he => henc (by simp [shouldencode, he])
    rw [decodeLoop, dif_pos hlt, if_neg (hget ▸ hne), if_neg (Nat.not_le.mpr hroom), hget,
      length_append, length_singleton]

theorem decodeLoop_escaped {n : Nat} (v : List UInt8) : ∀ {pre out : List UInt8},
    s = pre ++ v.flatMap escape → s.length < 2 ^ 31 → out.length + v.length < n →
      decodeLoop s n pre.length out = (0, out ++ v ++ [0]) := by
  induction v with
  | nil =>
    intro pre out hs _ _
    have hend : ¬ pre.length < s.length := by simp [hs]
    rw [decodeLoop, dif_neg hend, append_nil]
  | cons c v ih =>
    intro pre out hs hlen hroom
    rw [length_cons] at hroom
    rw [flatMap_cons] at hs
    rw [decodeLoop_byte hs hlen (by omega), ih (by rw [hs, append_assoc]) hlen (by
      rw [length_append, length_singleton]
      omega)]
    simp

/-- **Unescaping gives the value back**, in every buffer that is longer. -/
theorem decodeString_encodeString {n : Nat} (h0 : 0 ∉ v) (hlen : (encodeString v).length < 2 ^ 31)
    (hn : v.length < n) : decodeString (encodeString v) n = (0, v ++ [0]) := by
  have hloop := @decodeLoop_escaped (encodeString v) n v [] [] (by rw [encodeString_eq h0]; rfl)
    hlen (by simpa using hn)
  exact hloop

end Escapes

/-! ## 3. Storing and reading -/

/-- **A value survives**: stored under a name that fits, in a list with room in which no earlier
    pair has the name, it is read back under the name in any case; and its text has no separator. -/
theorem paraValue_survives {l : PairList} (hroom : l.last < l.slots.length) {v : List UInt8}
    (h0 : 0 ∉ v) (hv : (encodeString v).length < MAX_VALUE_LEN) {name name' : List UInt8}
    (hname : 0 ∉ name) (hfits : name.length < MAX_NAME_LEN)
    (hcase : name'.map lower = name.map lower) (junk : List UInt8)
    (hfirst : ∀ p ∈ (l.slots.take l.last).map (readSlot junk), p.1.map lower ≠ name.map lower)
    {n : Nat} (hn : v.length < n) :
    (∃ l', setParaValue l name v = .ok (some l') ∧
      getParaValue junk l' name' n = some (0, v ++ [0])) ∧
      ∀ c ∈ encodeString v, c ≠ 61 ∧ c ≠ 38 := by
  have hmax : MAX_VALUE_LEN = 4096 := rfl
  refine ⟨⟨⟨l.last + 1, l.slots.set l.last ⟨some name, some (encodeString v)⟩⟩, ?_, ?_⟩,
    fun c hc => ⟨(encodeString_plain v c hc).1, (encodeString_plain v c hc).2.1⟩⟩
  · rw [setParaValue, if_neg (Nat.not_le.mpr hroom), if_neg (by omega), cText_self hname,
      take_of_length_le (by omega), take_of_length_le (by omega)]
  · have htake : (l.slots.set l.last ⟨some name, some (encodeString v)⟩).take (l.last + 1) =
        l.slots.take l.last ++ [⟨some name, some (encodeString v)⟩] := by
      rw [take_add_one, getElem?_set_self hroom, take_set_of_le (Nat.le_refl _)]
      rfl
    have hnone : ((l.slots.take l.last).map (readSlot junk)).find?
        (fun p => name'.map lower == p.1.map lower) = none := by
      refine find?_eq_none.mpr fun p hp => ?_
      rw [hcase, beq_iff_eq]
      exact (hfirst p hp).symm
    rw [getParaValue, htake, map_append, find?_append, hnone, Option.none_or, map_singleton,
      find?_cons_of_pos (by simpa [readSlot] using hcase), Option.map_some]
    exact congrArg some (decodeString_encodeString h0 (by omega) hn)

/-- "a=1%" under "Dir", read as "dir" into five bytes. -/
theorem paraValue_escaped :
    (∃ l', setParaValue (createStringPairList 2) (ascii "Dir") (ascii "a=1%") = .ok (some l') ∧
      getParaValue [] l' (ascii "dir") 5 = some (0, ascii "a=1%" ++ [0])) ∧
      ∀ c ∈ encodeString (ascii "a=1%"), c ≠ 61 ∧ c ≠ 38 :=
  paraValue_survives (by decide) (by decide) (by decide) (by decide) (by decide) (by decide) []
    (by decide) (by decide)

/-- **A name of 201 bytes is not found**: two bytes of it are cut off. -/
theorem paraValue_longName :
    ∃ l', setParaValue (createStringPairList 2) (List.replicate 201 97) (ascii "1") =
      .ok (some l') ∧
      getParaValue [] l' (List.replicate 201 97) 16 = none :=
  ⟨_, rfl, by decide +kernel⟩

end Pfs.Para
