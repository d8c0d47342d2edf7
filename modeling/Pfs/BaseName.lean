/-
  The Base64 encoder (lib/common.c) and the base names made with it.

  `base64_encode` counts its characters in an `int`, `(len*8 + 5)/6`, and appends '=' while the
  count is no multiple of four. Below `2^28` bytes the count is the right one and the text is that
  of RFC 4648; from there on the product overflows, and no `int` is as large as the right count. The
  model takes the product modulo `2^32`.

  Main results: `baseNames_iff`, `base64Encode_empties`.
-/
import Pfs.Lib.CInt
import Pfs.UpName

namespace Pfs

open Lib List

/-! ## 1. The encoder -/

/-- `int bytes = (len*8 + 5)/6`. -/
def encodeBytes (len : Nat) : Int := (toInt32 (len * 8 + 5)).tdiv 6

/-- `while (pad && (i % 4)) out[i++] = '=';` -/
def padLoop (pad : Bool) (i : Nat) : List UInt8 :=
  if h : (pad && i % 4 != 0) = true then padChar :: padLoop pad (i + 1) else []
termination_by (4 - i % 4) % 4
decreasing_by
  simp only [Bool.and_eq_true, bne_iff_ne] at h
  omega

/-- `base64_encode`: the text in `out`. A count below zero writes no character. -/
def base64Encode (buf : List UInt8) (pad : Bool) : List UInt8 :=
  let text := (List.range (encodeBytes buf.length).toNat).map fun i =>
    base64Char (base64Index buf i)
  text ++ padLoop pad text.length

theorem padLoop_eq (pad : Bool) (i : Nat) : padLoop pad i = padding pad i := by
  fun_induction padLoop pad i with
  | case1 i h ih =>
    simp only [Bool.and_eq_true, bne_iff_ne] at h
    obtain ⟨rfl, hi⟩ := h
    have hn : (4 - i % 4) % 4 = (4 - (i + 1) % 4) % 4 + 1 := by omega
    rw [ih, padding, padding, if_pos rfl, if_pos rfl, hn, replicate_succ]
  | case2 i h =>
    unfold padding
    cases pad with
    | false => rfl
    | true =>
      have hi : i % 4 = 0 := by simpa using h
      rw [if_pos rfl, hi]
      rfl

theorem encodeBytes_of_lt {len : Nat} (h : len < 2 ^ 28) :
    (encodeBytes len).toNat = (len * 8 + 5) / 6 := by
  unfold encodeBytes
  rw [toInt32_of_lt (by omega) (by omega), Int.tdiv_eq_ediv_of_nonneg (by omega)]
  omega

/-- Whatever `len` is, the count stays below what `2^28` bytes need. -/
theorem encodeBytes_le (len : Nat) : (encodeBytes len).toNat ≤ (2 ^ 31 - 1) / 6 := by
  have h : toInt32 (len * 8 + 5) ≤ 2 ^ 31 - 1 := Int.le_sub_one_of_lt (toInt32_lt _)
  have hdiv : encodeBytes len ≤ (2 ^ 31 - 1 : Int).tdiv 6 := Int.tdiv_le_tdiv (by decide) h
  exact Int.toNat_le.mpr hdiv

variable {buf : List UInt8} {w : Nat} {x : Int}

theorem base64Encode_text (h : buf.length < 2 ^ 28) (pad : Bool) :
    base64Encode buf pad = base64 buf ++ padding pad (base64 buf).length := by
  unfold base64Encode
  rw [encodeBytes_of_lt h]
  simp only [padLoop_eq]
  rfl

theorem base64Encode_eq (h : buf.length < 2 ^ 28) (pad : Bool) :
    base64Encode buf pad = rfc4648 pad buf := by
  rw [base64Encode_text h, rfc4648_eq]

theorem base64Encode_length (buf : List UInt8) :
    (base64Encode buf false).length = (encodeBytes buf.length).toNat := by
  unfold base64Encode
  simp only [padLoop_eq, padding, Bool.false_eq_true, if_false, append_nil, length_map,
    length_range]

theorem rfc4648_length (d : List UInt8) : (rfc4648 false d).length = (d.length * 8 + 5) / 6 := by
  rw [rfc4648_groups, length_append, length_map, groups_length]
  rfl

/-- From `2^28` bytes on the text is too short. -/
theorem base64Encode_ne (h : 2 ^ 28 ≤ buf.length) : base64Encode buf false ≠ rfc4648 false buf := by
  intro he
  have hl := congrArg List.length he
  have hb := encodeBytes_le buf.length
  rw [base64Encode_length, rfc4648_length] at hl
  omega

/-! ## 2. The names -/

/-- `%0<w>d`: the sign counts to the width. -/
def decimalIntPad (w : Nat) (x : Int) : List UInt8 :=
  if x < 0 then 45 :: decimalPad (w - 1) x.natAbs else decimalPad w x.natAbs

/-- What a name is made of: a `time_t`, the address and the counter, an `int`. -/
@[ext] structure NameTriple where
  now : Int
  ip : UInt32
  index : Int
  now_range : -2 ^ 63 ≤ now ∧ now < 2 ^ 63
  index_range : -2 ^ 31 ≤ index ∧ index < 2 ^ 31

/-- `%ld_%u_%04d`. -/
def NameTriple.text (t : NameTriple) : Path :=
  decimalInt t.now ++ underscore :: (decimal t.ip.toNat ++ underscore :: decimalIntPad 4 t.index)

/-- The base name: `snprintf` into 256 bytes, then `base64_encode` without padding. -/
def NameTriple.name (t : NameTriple) : Path := base64Encode (t.text.take 255) false

theorem decimalIntPad_char {c : UInt8} (h : c ∈ decimalIntPad w x) : isNumberChar c := by
  unfold decimalIntPad at h
  split at h
  · rcases mem_cons.mp h with rfl | h
    · exact .inr (.inl rfl)
    · exact .inl (decimalPad_digit h)
  · exact .inl (decimalPad_digit h)

theorem decimalIntPad_inj {y : Int} (h : decimalIntPad w x = decimalIntPad w y) : x = y := by
  -- a sign is told from a digit
  have hsign : ∀ {v n : Nat} {s : List UInt8}, 45 :: s ≠ decimalPad v n := by
    intro v n s he
    exact absurd (decimalPad_digit (he ▸ mem_cons_self)) (by decide)
  unfold decimalIntPad at h
  split at h <;> split at h
  · have := decimalPad_inj (List.cons.inj h).2
    omega
  · exact absurd h hsign
  · exact absurd h.symm hsign
  · have := decimalPad_inj h
    omega

theorem decimalIntPad_length {k : Nat} (h : x.natAbs < 10 ^ k) (hk : 0 < k) (hw : w ≤ k) :
    (decimalIntPad w x).length ≤ k + 1 := by
  unfold decimalIntPad
  split
  · have := decimalPad_length_le h hk (Nat.le_trans (Nat.sub_le w 1) hw)
    rw [length_cons]
    omega
  · have := decimalPad_length_le h hk hw
    omega

theorem text_length (t : NameTriple) : t.text.length ≤ 43 := by
  obtain ⟨hnow1, hnow2⟩ := t.now_range
  obtain ⟨hidx1, hidx2⟩ := t.index_range
  have hnow : (decimalInt t.now).length ≤ 20 := decimalInt_length_le (by omega) (by decide)
  have hip : (decimal t.ip.toNat).length ≤ 10 :=
    decimal_length_le (Nat.lt_trans t.ip.toNat_lt (by decide)) (by decide)
  have hidx : (decimalIntPad 4 t.index).length ≤ 11 :=
    decimalIntPad_length (by omega) (by decide) (by decide)
  simp only [NameTriple.text, length_append, length_cons]
  omega

theorem name_eq (t : NameTriple) : t.name = base64 t.text := by
  have hl := text_length t
  unfold NameTriple.name
  rw [take_of_length_le (by omega), base64Encode_text (by omega)]
  simp [padding]

theorem text_char (t : NameTriple) : ∀ c ∈ t.text, isNumberChar c := by
  intro c hc
  simp only [NameTriple.text, mem_append, mem_cons] at hc
  rcases hc with hc | rfl | hc | rfl | hc
  · rcases decimalInt_char hc with rfl | hd
    · exact .inr (.inl rfl)
    · exact .inl hd
  · exact .inr (.inr rfl)
  · exact .inl (decimal_digit hc)
  · exact .inr (.inr rfl)
  · exact decimalIntPad_char hc

theorem name_letterOrDigit (t : NameTriple) : ∀ c ∈ t.name, isLetterOrDigit c := by
  rw [name_eq]
  exact base64_letterOrDigit (text_char t)

theorem name_inj {t u : NameTriple} (h : t.name = u.name) : t = u := by
  rw [name_eq, name_eq] at h
  obtain ⟨hnow, hip, hidx⟩ := joined_inj (underscore_notMem_decimalInt _)
    (underscore_notMem_decimalInt _) (underscore_notMem_decimal _) (underscore_notMem_decimal _)
    (base64_inj h)
  exact NameTriple.ext (decimalInt_inj hnow) (UInt32.toNat_inj.mp (decimal_inj hip))
    (decimalIntPad_inj hidx)

/-! ## 3. Both together -/

/-- The input is encoded as RFC 4648 has it, with and without padding, and no other input that is
    encoded right has the same text. -/
def EncodedRight (d : List UInt8) : Prop :=
  (∀ pad, base64Encode d pad = rfc4648 pad d) ∧
    ∀ e pad, base64Encode e pad = rfc4648 pad e → base64Encode d pad = base64Encode e pad → d = e

/-- **Which inputs are encoded right, and the generated names.** -/
theorem baseNames_iff (d : List UInt8) :
    (EncodedRight d ↔ d.length < 2 ^ 28) ∧
      (∀ t : NameTriple, ∀ c ∈ t.name, isLetterOrDigit c) ∧
      ∀ t u : NameTriple, t.name = u.name → t = u := by
  refine ⟨⟨fun h => ?_, fun h => ⟨base64Encode_eq h, ?_⟩⟩, name_letterOrDigit, fun t u => name_inj⟩
  · by_contra hlong
    exact base64Encode_ne (Nat.le_of_not_lt hlong) (h.1 false)
  · intro e pad he heq
    rw [base64Encode_eq h, he] at heq
    exact rfc4648_inj heq

/-- "Man", and the name of the first second, the address 1 and the counter 99998. -/
theorem baseNames_man :
    EncodedRight [77, 97, 110] ∧
      ∀ c ∈ (NameTriple.mk 1 1 99998 (by decide) (by decide)).name, isLetterOrDigit c :=
  ⟨(baseNames_iff [77, 97, 110]).1.mpr (by decide), (baseNames_iff []).2.1 _⟩

/-- `2^28` bytes: the product modulo `2^32` is a negative number, and no character is written. -/
theorem base64Encode_empties :
    base64Encode (List.replicate (2 ^ 28) 0) false = [] ∧
      (rfc4648 false (List.replicate (2 ^ 28) 0)).length = 357913942 := by
  have hl : (List.replicate (2 ^ 28) (0 : UInt8)).length = 2 ^ 28 := length_replicate
  have hcount : (encodeBytes (2 ^ 28)).toNat = 0 := by decide
  refine ⟨length_eq_zero_iff.mp ?_, ?_⟩
  · exact (base64Encode_length _).trans
      ((congrArg (fun n => (encodeBytes n).toNat) hl).trans hcount)
  · refine (rfc4648_length _).trans ?_
    omega

end Pfs
