/-
  Addresses as texts (lib/util_ip.c): `ip2str`, and that `str2ip` of `Topology` reads what it
  writes.

  Of the four numbers of a text, `str2ip` tests the first, the second and the fourth, each as it is
  stored in 32 bits. The third one is added without a test, so that it spills into the fourth.

  Main results: `ipText_iff`, `ipText_spills`.
-/
import Pfs.Topology

namespace Pfs

open Lib List

/-! ## 1. Texts and addresses -/

/-- One octet in `ip2str`. -/
def octetText (c : UInt8) : List UInt8 :=
  if 100 ≤ c then [48 + c / 100, 48 + c / 10 % 10, 48 + c % 10]
  else if 10 ≤ c then [48 + c / 10, 48 + c % 10]
  else [48 + c]

/-- `c[k]`: a little-endian machine has the lowest byte first. -/
def octet (ip : UInt32) (k : Nat) : UInt8 := UInt8.ofNat (ip.toNat / 256 ^ k)

/-- `ip2str`: the bytes that are written; there is no NUL among them. -/
def ip2str (ip : UInt32) : List UInt8 :=
  octetText (octet ip 0) ++ 46 :: (octetText (octet ip 1) ++ 46 ::
    (octetText (octet ip 2) ++ 46 :: octetText (octet ip 3)))

/-- Four decimal numbers without leading zeros, and dots between them. -/
def dotted (a b c d : Nat) : List UInt8 :=
  decimal a ++ 46 :: (decimal b ++ 46 :: (decimal c ++ 46 :: decimal d))

def address (a b c d : Nat) : UInt32 := UInt32.ofNat (a + b * 256 + c * 256 ^ 2 + d * 256 ^ 3)

def Octets (a b c d : Nat) : Prop := 1 ≤ a ∧ a ≤ 223 ∧ b ≤ 255 ∧ c ≤ 255 ∧ d ≤ 255

instance (a b c d : Nat) : Decidable (Octets a b c d) := inferInstanceAs (Decidable (_ ∧ _))

/-- A number as `str2ip` has it: `strtoul` stops at the largest `unsigned long`, and the variable
    has 32 bits. -/
def stored (n : Nat) : UInt32 := UInt32.ofNat (min n (2 ^ 64 - 1))

/-- What `str2ip` tests. -/
def Refused (a b d : Nat) : Prop := stored a = 0 ∨ 224 ≤ stored a ∨ 256 ≤ stored b ∨ 256 ≤ stored d

instance (a b d : Nat) : Decidable (Refused a b d) := inferInstanceAs (Decidable (_ ∨ _))

/-! ## 2. Numerals -/

section Numerals

variable {s rest : List UInt8} {n : Nat} {c : UInt8}

theorem digitValue_digit (h : 48 ≤ c.toNat ∧ c.toNat ≤ 57) :
    isDigit c = true ∧ digitValue c = c.toNat - 48 := by
  have hd : isDigit c = true := by
    rw [isDigit, Bool.and_eq_true, decide_eq_true_iff, decide_eq_true_iff, UInt8.le_iff_toNat_le,
      UInt8.le_iff_toNat_le]
    exact h
  exact ⟨hd, if_pos hd⟩

theorem digits_append (hs : ∀ c ∈ s, 48 ≤ c.toNat ∧ c.toNat ≤ 57) (hc : 10 ≤ digitValue c)
    (acc : Nat) :
    digits 10 (s ++ c :: rest) acc =
      (s.foldl (fun a c => 10 * a + (c.toNat - 48)) acc, c :: rest) := by
  induction s generalizing acc with
  | nil => exact if_neg (Nat.not_lt.mpr hc)
  | cons x s ih =>
    obtain ⟨hlo, hhi⟩ := hs x mem_cons_self
    have hx := (digitValue_digit ⟨hlo, hhi⟩).2
    have hlt : digitValue x < 10 := by omega
    rw [cons_append, digits, if_pos hlt, ih fun c hm => hs c (mem_cons_of_mem _ hm), hx, foldl_cons,
      Nat.mul_comm]

theorem decimal_head (n : Nat) : ∃ x xs, decimal n = x :: xs ∧ isDigit x = true ∧
    (x = 48 → n = 0) := by
  obtain ⟨x, xs, hx⟩ := exists_cons_of_ne_nil (decimal_ne_nil n)
  have hall : ∀ c ∈ x :: xs, 48 ≤ c.toNat ∧ c.toNat ≤ 57 := fun c hc => decimal_digit (hx ▸ hc)
  refine ⟨x, xs, hx, (digitValue_digit (hall x mem_cons_self)).1, ?_⟩
  rintro rfl
  -- the other digits have the value already, and they are fewer
  have hread := readDecimal_decimal n
  rw [hx, ← singleton_append, readDecimal_append] at hread
  have hzero : readDecimal [48] = 0 := rfl
  have hlt := readDecimal_lt fun c hc => hall c (mem_cons_of_mem _ hc)
  rw [hzero, Nat.zero_mul, Nat.zero_add] at hread
  rw [hread] at hlt
  cases xs with
  | nil => exact Nat.lt_one_iff.mp hlt
  | cons y ys =>
    have hlen := decimal_length_le hlt (Nat.succ_pos _)
    rw [hx] at hlen
    exact absurd hlen (Nat.not_succ_le_self _)

theorem strtoul_decimal (n : Nat) (hc : c = 46 ∨ c = 0) :
    strtoul (decimal n ++ c :: rest) = (stored n, c :: rest) := by
  have hstop : 10 ≤ digitValue c := by
    rcases hc with rfl | rfl <;> decide
  have hread := @digits_append (decimal n) rest c (fun _ hx => decimal_digit hx) hstop 0
  obtain ⟨x, xs, hx, -, h0⟩ := decimal_head n
  have hval : (decimal n).foldl (fun a c => 10 * a + (c.toNat - 48)) 0 = n := readDecimal_decimal n
  rw [hval] at hread
  by_cases hzero : x = 48
  · -- the base is 8, and there is one digit
    obtain rfl := h0 hzero
    have hnum : decimal 0 = [48] := rfl
    have hoct : digits 8 (48 :: c :: rest) 0 = (0, c :: rest) := by
      rcases hc with rfl | rfl <;> rfl
    have hx : ¬ (c = 120 ∨ c = 88) := by
      rcases hc with rfl | rfl <;> decide
    rw [hnum, singleton_append]
    cases rest with
    | nil => simp only [strtoul, hoct, stored]
    | cons h rest => simp only [strtoul, hx, false_and, if_false, hoct, stored]
  · rw [hx, cons_append] at hread ⊢
    unfold strtoul
    split
    · rename_i heq
      exact absurd (cons.inj heq).1 hzero
    · rename_i heq
      exact absurd (cons.inj heq).1 hzero
    · rw [hread]
      rfl

theorem dotDigit_decimal (n : Nat) : dotDigit (46 :: (decimal n ++ s)) = true := by
  obtain ⟨x, xs, hx, hdigit, -⟩ := decimal_head n
  rw [hx]
  exact hdigit

end Numerals

/-! ## 3. Four numbers -/

section Four

variable {a b c d : Nat} {rest : List UInt8}

theorem str2ip_dotted (a b c d : Nat) (rest : List UInt8) :
    str2ip (dotted a b c d ++ 0 :: rest) = if Refused a b d then INADDR_NONE
      else stored a + stored b <<< (8 : UInt32) + stored c <<< (16 : UInt32) + stored d <<<
    (24 : UInt32) := by
  have hfirst : ∀ s, isDigit ((decimal a ++ s).headD 0) = true := fun s => dotDigit_decimal a
  unfold dotted str2ip
  simp only [append_assoc, cons_append, hfirst, strtoul_decimal, dotDigit_decimal, headD_cons,
    drop_one,
    tail_cons, Bool.true_eq_false, if_false, true_or, or_true, ne_eq, not_true_eq_false, false_or]
  by_cases ha : stored a = 0 ∨ 224 ≤ stored a
  · have hrefused : Refused a b d := ha.imp_right .inl
    rw [if_pos ha, if_pos hrefused]
  by_cases hb : 256 ≤ stored b
  · rw [if_neg ha, if_pos hb, if_pos (.inr (.inr (.inl hb)))]
  by_cases hd : 256 ≤ stored d
  · rw [if_neg ha, if_neg hb, if_pos hd, if_pos (.inr (.inr (.inr hd)))]
  have htaken : ¬ Refused a b d := by
    rintro (h | h | h | h)
    · exact ha (.inl h)
    · exact ha (.inr h)
    · exact hb h
    · exact hd h
  rw [if_neg ha, if_neg hb, if_neg hd, if_neg htaken]

theorem toNat_shift (x : UInt32) :
    (x <<< (8 : UInt32)).toNat = x.toNat * 256 % 2 ^ 32 ∧
      (x <<< (16 : UInt32)).toNat = x.toNat * 256 ^ 2 % 2 ^ 32 ∧
      (x <<< (24 : UInt32)).toNat = x.toNat * 256 ^ 3 % 2 ^ 32 := by
  simp only [UInt32.toNat_shiftLeft, Nat.shiftLeft_eq]
  exact ⟨rfl, rfl, rfl⟩

theorem stored_of_lt {n : Nat} (h : n < 256) : (stored n).toNat = n := by
  rw [stored, UInt32.toNat_ofNat']
  omega

theorem octets_taken (h : Octets a b c d) : ¬ Refused a b d ∧
    stored a + stored b <<< (8 : UInt32) + stored c <<< (16 : UInt32) + stored d <<< (24 : UInt32) =
      address a b c d := by
  obtain ⟨ha, ha', hb, hc, hd⟩ := h
  have h1 := stored_of_lt (n := a) (by omega)
  have h2 := stored_of_lt (n := b) (by omega)
  have h3 := stored_of_lt (n := c) (by omega)
  have h4 := stored_of_lt (n := d) (by omega)
  refine ⟨?_, ?_⟩
  · simp only [Refused, ← UInt32.toNat_inj, UInt32.le_iff_toNat_le, h1, h2, h4, UInt32.reduceToNat]
    omega
  · apply UInt32.toNat_inj.mp
    simp only [UInt32.toNat_add, toNat_shift, h1, h2, h3, h4, address, UInt32.toNat_ofNat']
    omega

theorem taken_ne_none (h : ¬ Refused a b d) :
    stored a + stored b <<< (8 : UInt32) + stored c <<< (16 : UInt32) + stored d <<< (24 : UInt32) ≠
      INADDR_NONE := by
  intro he
  have hnat := congrArg UInt32.toNat he
  simp only [Refused, ← UInt32.toNat_inj, UInt32.le_iff_toNat_le, UInt32.reduceToNat] at h
  simp only [UInt32.toNat_add, toNat_shift, INADDR_NONE, UInt32.reduceToNat] at hnat
  omega

end Four

/-! ## 4. The text of an address -/

theorem octetText_eq (c : UInt8) : octetText c = decimal c.toNat := by
  have hall : ∀ k : Fin 256, octetText (UInt8.ofNat k) = decimal k := by decide +kernel
  have hc := hall ⟨c.toNat, c.toNat_lt⟩
  rwa [UInt8.ofNat_toNat] at hc

theorem ip2str_eq (ip : UInt32) : ip2str ip =
    dotted (octet ip 0).toNat (octet ip 1).toNat (octet ip 2).toNat (octet ip 3).toNat := by
  simp only [ip2str, octetText_eq, dotted]

theorem address_octets (ip : UInt32) :
    address (octet ip 0).toNat (octet ip 1).toNat (octet ip 2).toNat (octet ip 3).toNat = ip := by
  have hlt := ip.toNat_lt
  apply UInt32.toNat_inj.mp
  simp only [address, octet, UInt32.toNat_ofNat', UInt8.toNat_ofNat']
  omega

/-- **Address text and number agree**: every address whose first octet is from 1 to 223 is read back
    from its text, whatever is behind the NUL; and four numbers give the address with these octets,
    or INADDR_NONE if they are not octets of such an address, exactly if they are, or `str2ip`
    refuses the first, the second or the fourth as it is stored. -/
theorem ipText_iff (rest : List UInt8) :
    (∀ ip, 1 ≤ octet ip 0 → octet ip 0 ≤ 223 → str2ip (ip2str ip ++ 0 :: rest) = ip) ∧
      ∀ a b c d, str2ip (dotted a b c d ++ 0 :: rest) =
          (if Octets a b c d then address a b c d else INADDR_NONE) ↔
        Octets a b c d ∨ Refused a b d := by
  have hright {a b c d : Nat} (h : Octets a b c d) :
      str2ip (dotted a b c d ++ 0 :: rest) = address a b c d := by
    obtain ⟨htaken, hsum⟩ := octets_taken h
    rw [str2ip_dotted, if_neg htaken, hsum]
  refine ⟨fun ip hlo hhi => ?_, fun a b c d => ⟨fun h => ?_, ?_⟩⟩
  · have hoctets : Octets (octet ip 0).toNat (octet ip 1).toNat (octet ip 2).toNat
        (octet ip 3).toNat := by
      have h1 := (octet ip 1).toNat_lt
      have h2 := (octet ip 2).toNat_lt
      have h3 := (octet ip 3).toNat_lt
      exact ⟨UInt8.le_iff_toNat_le.mp hlo, UInt8.le_iff_toNat_le.mp hhi, by omega, by omega, by
        omega⟩
    rw [ip2str_eq, hright hoctets, address_octets]
  · by_contra hno
    obtain ⟨hbad, htaken⟩ := not_or.mp hno
    rw [str2ip_dotted, if_neg htaken, if_neg hbad] at h
    exact taken_ne_none htaken h
  · intro h
    by_cases hoctets : Octets a b c d
    · rw [if_pos hoctets, hright hoctets]
    · rw [if_neg hoctets, str2ip_dotted, if_pos (h.resolve_left hoctets)]

/-- "10.2.3.4" is written and read, "300.2.3.4" is refused. -/
theorem ipText_ten : str2ip (ip2str (address 10 2 3 4) ++ [0]) = address 10 2 3 4 ∧
    str2ip (dotted 10 2 3 4 ++ [0]) = address 10 2 3 4 ∧
    str2ip (dotted 300 2 3 4 ++ [0]) = INADDR_NONE := by
  obtain ⟨hback, hnumbers⟩ := ipText_iff []
  exact ⟨hback (address 10 2 3 4) (by decide) (by decide),
    (hnumbers 10 2 3 4).mpr (.inl (by decide)), (hnumbers 300 2 3 4).mpr (.inr (by decide))⟩

/-- "1.2.256.4" is 1.2.0.5, and "4294967297.2.3.4", whose first number is stored as 1, is
    1.2.3.4. -/
theorem ipText_spills : ¬ Octets 1 2 256 4 ∧ str2ip (dotted 1 2 256 4 ++ [0]) = address 1 2 0 5 ∧
    ¬ Octets (2 ^ 32 + 1) 2 3 4 ∧ str2ip (dotted (2 ^ 32 + 1) 2 3 4 ++ [0]) = address 1 2 3 4 := by
  refine ⟨by decide, ?_, by decide, ?_⟩
  · rw [str2ip_dotted]
    decide
  · rw [str2ip_dotted]
    decide

end Pfs
