/-
  Base64 without padding, one output character at a time.

  The encoder computes the position of each sextet in the input and joins the bits of one or two
  bytes. `groups` is the same text by groups of three bytes; there the bits can be read off.
-/
import Mathlib.Algebra.Ring.Int.Defs
import Mathlib.Algebra.Ring.Nat
import Mathlib.Data.List.Basic

namespace Pfs.Lib

open List

/-- "ABCDEFGHIJKLMNOPQRSTUVWXYZabcdefghijklmnopqrstuvwxyz0123456789+/" -/
def base64Alphabet : List UInt8 :=
  [65, 66, 67, 68, 69, 70, 71, 72, 73, 74, 75, 76, 77, 78, 79, 80, 81, 82, 83, 84, 85, 86, 87, 88,
    89, 90, 97, 98, 99, 100, 101, 102, 103, 104, 105, 106, 107, 108, 109, 110, 111, 112, 113, 114,
    115, 116, 117, 118, 119, 120, 121, 122, 48, 49, 50, 51, 52, 53, 54, 55, 56, 57, 43, 47]

def base64Char (idx : Nat) : UInt8 := base64Alphabet.getD idx 0

def base64Index (d : List UInt8) (i : Nat) : Nat :=
  let byteOffset := i * 6 / 8
  let bitOffset := i * 6 % 8
  let byte (k : Nat) := (d.getD k 0).toNat
  if bitOffset < 3 then byte byteOffset >>> (2 - bitOffset) &&& 0x3F
  else
    let idx := byte byteOffset <<< (bitOffset - 2) &&& 0x3F
    if byteOffset + 1 < d.length then
      idx ||| byte (byteOffset + 1) >>> (8 - (bitOffset - 2)) else idx

def base64 (d : List UInt8) : List UInt8 :=
  (List.range ((d.length * 8 + 5) / 6)).map fun i => base64Char (base64Index d i)

/-! ## 1. Groups of three bytes -/

/-- The sextets, by groups of three bytes. -/
def groups : List UInt8 → List Nat
  | [] => []
  | [a] => [a.toNat / 4, a.toNat % 4 * 16]
  | [a, b] => [a.toNat / 4, a.toNat % 4 * 16 + b.toNat / 16, b.toNat % 16 * 4]
  | a :: b :: c :: rest =>
    a.toNat / 4 :: (a.toNat % 4 * 16 + b.toNat / 16) :: (b.toNat % 16 * 4 + c.toNat / 64) ::
      c.toNat % 64 :: groups rest

theorem sextet_first (a : Nat) (h : a < 256) : a >>> 2 &&& 0x3F = a / 4 := by
  rw [show (0x3F : Nat) = 2 ^ 6 - 1 from rfl, Nat.and_two_pow_sub_one_eq_mod,
    Nat.shiftRight_eq_div_pow]
  omega

theorem sextet_last (a : Nat) : a >>> 0 &&& 0x3F = a % 64 := by
  rw [show (0x3F : Nat) = 2 ^ 6 - 1 from rfl, Nat.and_two_pow_sub_one_eq_mod, Nat.shiftRight_zero]

theorem sextet_high (a k m : Nat) (hk : k + m = 6) :
    a <<< k &&& 0x3F = a % 2 ^ m * 2 ^ k := by
  rw [show (0x3F : Nat) = 2 ^ 6 - 1 from rfl, Nat.and_two_pow_sub_one_eq_mod, Nat.shiftLeft_eq,
    ← hk, Nat.pow_add, Nat.mul_comm (2 ^ k) (2 ^ m), Nat.mul_mod_mul_right]

theorem sextet_join (a b k m : Nat) (hk : k + m = 6) (hb : b < 256) :
    (a <<< k &&& 0x3F) ||| b >>> (8 - k) = a % 2 ^ m * 2 ^ k + b / 2 ^ (8 - k) := by
  have hlow : b / 2 ^ (8 - k) < 2 ^ k := by
    rw [Nat.div_lt_iff_lt_mul (Nat.two_pow_pos _), ← Nat.pow_add]
    have h8 : k + (8 - k) = 8 := by omega
    rw [h8]
    exact hb
  rw [sextet_high a k m hk, Nat.shiftRight_eq_div_pow, ← Nat.shiftLeft_eq,
    ← Nat.shiftLeft_add_eq_or_of_lt hlow]

theorem base64Index_add_four (a b c : UInt8) (rest : List UInt8) (i : Nat) :
    base64Index (a :: b :: c :: rest) (i + 4) = base64Index rest i := by
  have hbyte : (i + 4) * 6 / 8 = i * 6 / 8 + 3 := by omega
  have hbit : (i + 4) * 6 % 8 = i * 6 % 8 := by omega
  have hlen : i * 6 / 8 + 3 + 1 < (a :: b :: c :: rest).length ↔ i * 6 / 8 + 1 < rest.length := by
    simp only [length_cons]
    omega
  have hget (k : Nat) : (a :: b :: c :: rest).getD (k + 3) 0 = rest.getD k 0 := rfl
  unfold base64Index
  simp only [hbyte, hbit, hlen, hget]

theorem map_range_groups (d : List UInt8) :
    (List.range ((d.length * 8 + 5) / 6)).map (base64Index d) = groups d := by
  match d with
  | [] => rfl
  | [a] =>
    have h0 := sextet_first a.toNat a.toNat_lt
    have h1 := sextet_high a.toNat 4 2 rfl
    simpa [range_succ, base64Index, groups] using ⟨h0, h1⟩
  | [a, b] =>
    have h0 := sextet_first a.toNat a.toNat_lt
    have h1 := sextet_join a.toNat b.toNat 4 2 rfl b.toNat_lt
    have h2 := sextet_high b.toNat 2 4 rfl
    simpa [range_succ, base64Index, groups] using ⟨h0, h1, h2⟩
  | a :: b :: c :: rest =>
    have h0 := sextet_first a.toNat a.toNat_lt
    have h1 := sextet_join a.toNat b.toNat 4 2 rfl b.toNat_lt
    have h2 := sextet_join b.toNat c.toNat 2 4 rfl c.toNat_lt
    have h3 := sextet_last c.toNat
    have hn : ((a :: b :: c :: rest).length * 8 + 5) / 6 = (rest.length * 8 + 5) / 6 + 4 := by
      simp only [length_cons]
      omega
    have ih := map_range_groups rest
    rw [hn, Nat.add_comm, range_add, map_append, map_map]
    have htail : (base64Index (a :: b :: c :: rest)) ∘ (4 + ·) = base64Index rest := by
      funext i
      show base64Index _ (4 + i) = _
      rw [Nat.add_comm, base64Index_add_four]
    rw [htail, ih]
    have hhead : (List.range 4).map (base64Index (a :: b :: c :: rest)) =
        [a.toNat / 4, a.toNat % 4 * 16 + b.toNat / 16, b.toNat % 16 * 4 + c.toNat / 64,
          c.toNat % 64] := by
      simpa [range_succ, base64Index] using ⟨h0, h1, h2, h3⟩
    rw [hhead]
    rfl

theorem base64_eq_groups (d : List UInt8) : base64 d = (groups d).map base64Char := by
  rw [← map_range_groups, map_map]
  rfl

/-! ## 2. Injectivity and the characters that occur -/

/-- A property of sextets that holds of those cut from one byte, or from two neighbours (the second
    one missing at the end), holds of every sextet. -/
theorem groups_forall {Q P : Nat → Prop} (h0 : ∀ a, Q a → P (a / 4))
    (h1 : ∀ a b, Q a → Q b ∨ b = 0 → P (a % 4 * 16 + b / 16))
    (h2 : ∀ b c, Q b → Q c ∨ c = 0 → P (b % 16 * 4 + c / 64)) (h3 : ∀ c, Q c → P (c % 64))
    {d : List UInt8} (h : ∀ c ∈ d, Q c.toNat) : ∀ k ∈ groups d, P k := by
  match d with
  | [] =>
    intro k hk
    cases hk
  | [a] =>
    have ha := h a (by simp)
    simp only [groups, mem_cons, not_mem_nil, or_false]
    rintro k (rfl | rfl)
    · exact h0 _ ha
    · simpa using h1 _ 0 ha (.inr rfl)
  | [a, b] =>
    have ha := h a (by simp)
    have hb := h b (by simp)
    simp only [groups, mem_cons, not_mem_nil, or_false]
    rintro k (rfl | rfl | rfl)
    · exact h0 _ ha
    · exact h1 _ _ ha (.inl hb)
    · simpa using h2 _ 0 hb (.inr rfl)
  | a :: b :: c :: rest =>
    have ha := h a (by simp)
    have hb := h b (by simp)
    have hc := h c (by simp)
    have ih := groups_forall h0 h1 h2 h3 (d := rest) fun x hx => h x (by simp [hx])
    simp only [groups, mem_cons]
    rintro k (rfl | rfl | rfl | rfl | hk)
    · exact h0 _ ha
    · exact h1 _ _ ha (.inl hb)
    · exact h2 _ _ hb (.inl hc)
    · exact h3 _ hc
    · exact ih k hk

theorem groups_lt (d : List UInt8) : ∀ k ∈ groups d, k < 64 := by
  refine groups_forall (Q := (· < 256)) ?_ ?_ ?_ ?_ fun c _ => c.toNat_lt
  · intro a ha
    omega
  · intro a b ha hb
    omega
  · intro b c hb hc
    omega
  · intro c hc
    omega

theorem groups_length (d : List UInt8) : (groups d).length = (d.length * 8 + 5) / 6 := by
  rw [← map_range_groups, length_map, length_range]

theorem groups_inj {d e : List UInt8} (h : groups d = groups e) : d = e := by
  have hlen : d.length = e.length := by
    have := congrArg List.length h
    rw [groups_length, groups_length] at this
    omega
  match d, e with
  | [], [] => rfl
  | [a], [a'] =>
    simp only [groups, List.cons.injEq, and_true] at h
    rw [UInt8.toNat_inj.mp (show a.toNat = a'.toNat by omega)]
  | [a, b], [a', b'] =>
    have := b.toNat_lt
    have := b'.toNat_lt
    simp only [groups, List.cons.injEq, and_true] at h
    rw [UInt8.toNat_inj.mp (show a.toNat = a'.toNat by omega),
      UInt8.toNat_inj.mp (show b.toNat = b'.toNat by omega)]
  | a :: b :: c :: rest, a' :: b' :: c' :: rest' =>
    have := b.toNat_lt
    have := b'.toNat_lt
    have := c.toNat_lt
    have := c'.toNat_lt
    simp only [groups, List.cons.injEq] at h
    obtain ⟨h0, h1, h2, h3, hrest⟩ := h
    rw [UInt8.toNat_inj.mp (show a.toNat = a'.toNat by omega),
      UInt8.toNat_inj.mp (show b.toNat = b'.toNat by omega),
      UInt8.toNat_inj.mp (show c.toNat = c'.toNat by omega), groups_inj hrest]

/-- Where a character stands in the alphabet; as numbers the kernel compares them fast. -/
def base64Value (c : UInt8) : Nat := (base64Alphabet.map UInt8.toNat).idxOf c.toNat

theorem base64Value_char {k : Nat} (hk : k < 64) : base64Value (base64Char k) = k := by
  have hall : ∀ a : Fin 64, base64Value (base64Char a) = a := by decide +kernel
  exact hall ⟨k, hk⟩

theorem map_base64Value {ks : List Nat} (h : ∀ k ∈ ks, k < 64) :
    (ks.map base64Char).map base64Value = ks := by
  rw [map_map]
  exact (map_congr_left fun k hk => base64Value_char (h k hk)).trans (map_id ks)

theorem base64_inj {d e : List UInt8} (h : base64 d = base64 e) : d = e := by
  rw [base64_eq_groups, base64_eq_groups] at h
  apply groups_inj
  rw [← map_base64Value (groups_lt d), h, map_base64Value (groups_lt e)]

theorem groups_ne_63 {d : List UInt8} (h : ∀ c ∈ d, c.toNat < 128 ∧ c.toNat % 64 ≠ 63) :
    ∀ k ∈ groups d, k ≠ 63 := by
  refine groups_forall (Q := fun n => n < 128 ∧ n % 64 ≠ 63) ?_ ?_ ?_ ?_ h
  · intro a ha
    omega
  · intro a b ha hb
    omega
  · intro b c hb hc
    omega
  · intro c hc
    exact hc.2

theorem base64Char_ne {k : Nat} (hk : k < 64) :
    base64Char k ≠ 46 ∧ (k ≠ 63 → base64Char k ≠ 47) := by
  have hall : ∀ a : Fin 64, base64Char a ≠ 46 ∧ (a.val ≠ 63 → base64Char a ≠ 47) := by
    decide +kernel
  exact hall ⟨k, hk⟩

theorem base64_notMem_dot (d : List UInt8) : 46 ∉ base64 d := by
  rw [base64_eq_groups]
  intro h
  obtain ⟨k, hk, he⟩ := mem_map.mp h
  exact (base64Char_ne (groups_lt d k hk)).1 he

/-- Which inputs have a text without '/'. -/
theorem base64_notMem_slash {d : List UInt8} (h : ∀ c ∈ d, c.toNat < 128 ∧ c.toNat % 64 ≠ 63) :
    47 ∉ base64 d := by
  rw [base64_eq_groups]
  intro hm
  obtain ⟨k, hk, he⟩ := mem_map.mp hm
  exact (base64Char_ne (groups_lt d k hk)).2 (groups_ne_63 h k hk) he

/-! ## 3. Letters and digits -/

/-- The characters of signed decimal numbers joined by '_'. -/
def isNumberChar (c : UInt8) : Prop :=
  (48 ≤ c.toNat ∧ c.toNat ≤ 57) ∨ c.toNat = 45 ∨ c.toNat = 95

def isLetterOrDigit (c : UInt8) : Prop :=
  (65 ≤ c.toNat ∧ c.toNat ≤ 90) ∨ (97 ≤ c.toNat ∧ c.toNat ≤ 122) ∨ (48 ≤ c.toNat ∧ c.toNat ≤ 57)

/-- At no alignment do two such characters give one of the last two sextets: '_' has the low bits
    of 61 at most. -/
theorem groups_lt_62 {d : List UInt8} (h : ∀ c ∈ d, isNumberChar c) : ∀ k ∈ groups d, k < 62 := by
  refine groups_forall (Q := fun n => (48 ≤ n ∧ n ≤ 57) ∨ n = 45 ∨ n = 95) ?_ ?_ ?_ ?_ h
  · intro a ha
    omega
  · intro a b ha hb
    omega
  · intro b c hb hc
    omega
  · intro c hc
    omega

theorem base64Char_letterOrDigit {k : Nat} (hk : k < 62) : isLetterOrDigit (base64Char k) := by
  have hall : ∀ a : Fin 62, (65 ≤ (base64Char a).toNat ∧ (base64Char a).toNat ≤ 90) ∨
      (97 ≤ (base64Char a).toNat ∧ (base64Char a).toNat ≤ 122) ∨
      (48 ≤ (base64Char a).toNat ∧ (base64Char a).toNat ≤ 57) := by decide +kernel
  exact hall ⟨k, hk⟩

/-- Which inputs have a text of letters and digits only. -/
theorem base64_letterOrDigit {d : List UInt8} (h : ∀ c ∈ d, isNumberChar c) :
    ∀ c ∈ base64 d, isLetterOrDigit c := by
  rw [base64_eq_groups]
  intro c hc
  obtain ⟨k, hk, rfl⟩ := mem_map.mp hc
  exact base64Char_letterOrDigit (groups_lt_62 h k hk)

/-! ## 4. RFC 4648 -/

def padChar : UInt8 := 61

/-- RFC 4648, section 4: three bytes are a group of 24 bits and four characters; a last group of 8
    or 16 bits is filled with zero bits to 12 or 18, and padded with '=' where `pad` asks for it. -/
def rfc4648 (pad : Bool) : List UInt8 → List UInt8
  | [] => []
  | [a] =>
    let n := a.toNat * 2 ^ 4
    [base64Char (n / 2 ^ 6), base64Char (n % 2 ^ 6)] ++ if pad then [padChar, padChar] else []
  | [a, b] =>
    let n := (a.toNat * 2 ^ 8 + b.toNat) * 2 ^ 2
    [base64Char (n / 2 ^ 12), base64Char (n / 2 ^ 6 % 2 ^ 6), base64Char (n % 2 ^ 6)] ++
      if pad then [padChar] else []
  | a :: b :: c :: rest =>
    let n := a.toNat * 2 ^ 16 + b.toNat * 2 ^ 8 + c.toNat
    [base64Char (n / 2 ^ 18), base64Char (n / 2 ^ 12 % 2 ^ 6), base64Char (n / 2 ^ 6 % 2 ^ 6),
      base64Char (n % 2 ^ 6)] ++ rfc4648 pad rest

/-- The pad characters behind `n` characters: none, or what is missing to a multiple of four. -/
def padding (pad : Bool) (n : Nat) : List UInt8 :=
  if pad then List.replicate ((4 - n % 4) % 4) padChar else []

theorem padding_add_four (pad : Bool) (n : Nat) : padding pad (n + 4) = padding pad n := by
  unfold padding
  rw [Nat.add_mod_right]

theorem rfc4648_groups (pad : Bool) (d : List UInt8) :
    rfc4648 pad d = (groups d).map base64Char ++ padding pad (groups d).length := by
  match d with
  | [] => cases pad <;> rfl
  | [a] =>
    have h0 : a.toNat * 2 ^ 4 / 2 ^ 6 = a.toNat / 4 := by omega
    have h1 : a.toNat * 2 ^ 4 % 2 ^ 6 = a.toNat % 4 * 16 := by omega
    simp only [rfc4648, groups, h0, h1]
    cases pad <;> rfl
  | [a, b] =>
    have := b.toNat_lt
    have h0 : (a.toNat * 2 ^ 8 + b.toNat) * 2 ^ 2 / 2 ^ 12 = a.toNat / 4 := by omega
    have h1 : (a.toNat * 2 ^ 8 + b.toNat) * 2 ^ 2 / 2 ^ 6 % 2 ^ 6 =
        a.toNat % 4 * 16 + b.toNat / 16 := by omega
    have h2 : (a.toNat * 2 ^ 8 + b.toNat) * 2 ^ 2 % 2 ^ 6 = b.toNat % 16 * 4 := by omega
    simp only [rfc4648, groups, h0, h1, h2]
    cases pad <;> rfl
  | a :: b :: c :: rest =>
    have := b.toNat_lt
    have := c.toNat_lt
    have ih := rfc4648_groups pad rest
    have h0 : (a.toNat * 2 ^ 16 + b.toNat * 2 ^ 8 + c.toNat) / 2 ^ 18 = a.toNat / 4 := by omega
    have h1 : (a.toNat * 2 ^ 16 + b.toNat * 2 ^ 8 + c.toNat) / 2 ^ 12 % 2 ^ 6 =
        a.toNat % 4 * 16 + b.toNat / 16 := by omega
    have h2 : (a.toNat * 2 ^ 16 + b.toNat * 2 ^ 8 + c.toNat) / 2 ^ 6 % 2 ^ 6 =
        b.toNat % 16 * 4 + c.toNat / 64 := by omega
    have h3 : (a.toNat * 2 ^ 16 + b.toNat * 2 ^ 8 + c.toNat) % 2 ^ 6 = c.toNat % 64 := by omega
    simp only [rfc4648, groups, h0, h1, h2, h3, ih, length_cons, padding_add_four]
    rfl

/-- The sextets of RFC 4648 are those of the encoder. -/
theorem rfc4648_eq (pad : Bool) (d : List UInt8) :
    rfc4648 pad d = base64 d ++ padding pad (base64 d).length := by
  rw [rfc4648_groups, base64_eq_groups, length_map]

theorem rfc4648_inj {pad : Bool} {d e : List UInt8} (h : rfc4648 pad d = rfc4648 pad e) :
    d = e := by
  have hchar : ∀ a : Fin 64, (base64Char a != padChar) = true := by decide +kernel
  have htext (d : List UInt8) : (rfc4648 pad d).filter (· != padChar) = base64 d := by
    have hkeep : (base64 d).filter (· != padChar) = base64 d := by
      rw [filter_eq_self, base64_eq_groups]
      intro c hc
      obtain ⟨k, hk, rfl⟩ := mem_map.mp hc
      exact hchar ⟨k, groups_lt d k hk⟩
    have hdrop (n : Nat) : (padding pad n).filter (· != padChar) = [] := by
      rw [filter_eq_nil_iff]
      intro c hc
      unfold padding at hc
      split at hc
      · rw [eq_of_mem_replicate hc]
        decide
      · cases hc
    rw [rfc4648_eq, filter_append, hkeep, hdrop, append_nil]
  apply base64_inj
  rw [← htext d, ← htext e, h]

end Pfs.Lib
