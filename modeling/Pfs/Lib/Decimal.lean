/-
  Decimal numerals as the `printf` family writes them.
-/
import Mathlib.Algebra.Ring.Int.Defs
import Mathlib.Algebra.Ring.Nat
import Mathlib.Data.List.Basic

namespace Pfs.Lib

open List

/-- The digits of `n`, most significant first, in front of `acc`; `fuel` bounds their number. -/
def decimalAux : Nat → Nat → List UInt8 → List UInt8
  | 0, _, acc => acc
  | fuel + 1, n, acc =>
    let acc := UInt8.ofNat (48 + n % 10) :: acc
    if n < 10 then acc else decimalAux fuel (n / 10) acc

/-- The digits of `n`, most significant first (`%u`, `%ld` of a natural number). -/
def decimal (n : Nat) : List UInt8 := decimalAux (n + 1) n []

/-- At least `w` digits, filled with zeros (`%04d`). -/
def decimalPad (w n : Nat) : List UInt8 := List.replicate (w - (decimal n).length) 48 ++ decimal n

/-- The numeral of an integer, `%d`. -/
def decimalInt (x : Int) : List UInt8 := if x < 0 then 45 :: decimal x.natAbs else decimal x.natAbs

example : decimal 2048 = [50, 48, 52, 56] := by decide

def readDecimal (s : List UInt8) : Nat := s.foldl (fun a c => 10 * a + (c.toNat - 48)) 0

theorem foldl_digits (s : List UInt8) (a b : Nat) :
    s.foldl (fun a c => 10 * a + (c.toNat - 48)) (a + b) =
      a * 10 ^ s.length + s.foldl (fun a c => 10 * a + (c.toNat - 48)) b := by
  induction s generalizing a b with
  | nil => simp
  | cons c s ih =>
    have h : 10 * (a + b) + (c.toNat - 48) = 10 * a + (10 * b + (c.toNat - 48)) := by omega
    rw [foldl_cons, foldl_cons, h, ih, length_cons, Nat.pow_succ]
    have hm : 10 * a * 10 ^ s.length = a * (10 ^ s.length * 10) := by
      rw [Nat.mul_comm 10 a, Nat.mul_assoc, Nat.mul_comm 10]
    rw [hm]

theorem readDecimal_append (s t : List UInt8) :
    readDecimal (s ++ t) = readDecimal s * 10 ^ t.length + readDecimal t := by
  have h := foldl_digits t (readDecimal s) 0
  unfold readDecimal at *
  rw [foldl_append]
  exact h

theorem decimalAux_acc (fuel n : Nat) (acc : List UInt8) :
    decimalAux fuel n acc = decimalAux fuel n [] ++ acc := by
  induction fuel generalizing n acc with
  | zero => rfl
  | succ fuel ih =>
    simp only [decimalAux]
    split
    · rfl
    · rw [ih, ih (n / 10) [UInt8.ofNat (48 + n % 10)], append_assoc]
      rfl

theorem digit_toNat (n : Nat) : (UInt8.ofNat (48 + n % 10)).toNat = 48 + n % 10 := by
  rw [UInt8.toNat_ofNat']
  omega

theorem decimalAux_digit (fuel n : Nat) {acc : List UInt8}
    (hacc : ∀ c ∈ acc, 48 ≤ c.toNat ∧ c.toNat ≤ 57) :
    ∀ c ∈ decimalAux fuel n acc, 48 ≤ c.toNat ∧ c.toNat ≤ 57 := by
  induction fuel generalizing n acc with
  | zero => exact hacc
  | succ fuel ih =>
    have hnew : ∀ c ∈ UInt8.ofNat (48 + n % 10) :: acc, 48 ≤ c.toNat ∧ c.toNat ≤ 57 := by
      intro c hc
      rcases mem_cons.mp hc with rfl | hc
      · rw [digit_toNat]
        omega
      · exact hacc c hc
    simp only [decimalAux]
    split
    · exact hnew
    · exact ih _ hnew

variable {n k w : Nat} {c : UInt8} {x : Int}

theorem decimal_digit (h : c ∈ decimal n) : 48 ≤ c.toNat ∧ c.toNat ≤ 57 :=
  decimalAux_digit (n + 1) n (fun _ h => by cases h) c h

theorem readDecimal_decimalAux {fuel : Nat} (h : n < fuel) :
    readDecimal (decimalAux fuel n []) = n := by
  induction fuel generalizing n with
  | zero => omega
  | succ fuel ih =>
    have hd : readDecimal [UInt8.ofNat (48 + n % 10)] = n % 10 := by
      simp only [readDecimal, foldl_cons, foldl_nil, digit_toNat]
      omega
    simp only [decimalAux]
    split
    · rw [hd]
      omega
    · rw [decimalAux_acc, readDecimal_append, ih (by omega), hd, length_singleton]
      omega

theorem readDecimal_decimal (n : Nat) : readDecimal (decimal n) = n :=
  readDecimal_decimalAux (Nat.lt_succ_self n)

theorem decimal_inj {m : Nat} (h : decimal m = decimal n) : m = n := by
  rw [← readDecimal_decimal m, h, readDecimal_decimal]

theorem decimal_ne_nil (n : Nat) : decimal n ≠ [] := by
  intro h
  have hl := congrArg List.length h
  simp only [decimal, decimalAux] at hl
  split at hl
  · cases hl
  · rw [decimalAux_acc, length_append] at hl
    exact Nat.succ_ne_zero _ hl

theorem decimalAux_length_le {fuel : Nat} (h : n < 10 ^ k) (hk : 0 < k) :
    (decimalAux fuel n []).length ≤ k := by
  induction fuel generalizing n k with
  | zero => exact Nat.zero_le _
  | succ fuel ih =>
    simp only [decimalAux]
    split
    · exact hk
    rename_i hge
    obtain ⟨m, rfl⟩ : ∃ m, k = m + 1 := ⟨k - 1, by omega⟩
    have hm : 0 < m := by
      rcases Nat.eq_zero_or_pos m with rfl | hm
      · exact absurd h (by simpa using hge)
      · exact hm
    have hlt : n / 10 < 10 ^ m := by
      rw [Nat.div_lt_iff_lt_mul (by decide)]
      rwa [Nat.pow_succ] at h
    rw [decimalAux_acc, length_append]
    exact Nat.succ_le_succ (ih hlt hm)

theorem decimal_length_le (h : n < 10 ^ k) (hk : 0 < k) : (decimal n).length ≤ k :=
  decimalAux_length_le h hk

theorem decimalPad_length_le (h : n < 10 ^ k) (hk : 0 < k) (hw : w ≤ k) :
    (decimalPad w n).length ≤ k := by
  have hl := decimal_length_le h hk
  unfold decimalPad
  rw [length_append, length_replicate]
  omega

theorem decimalInt_length_le (h : x.natAbs < 10 ^ k) (hk : 0 < k) :
    (decimalInt x).length ≤ k + 1 := by
  have hd := decimal_length_le h hk
  unfold decimalInt
  split
  · exact Nat.succ_le_succ hd
  · exact Nat.le_succ_of_le hd

theorem decimalInt_inj {y : Int} (h : decimalInt x = decimalInt y) : x = y := by
  have hminus (n m : Nat) : 45 :: decimal n ≠ decimal m := by
    intro he
    have hd := decimal_digit (n := m) (c := 45) (he ▸ mem_cons_self)
    exact absurd hd (by decide)
  unfold decimalInt at h
  split at h
  · split at h
    · have hn := decimal_inj (List.cons.inj h).2
      omega
    · exact absurd h (hminus _ _)
  · split at h
    · exact absurd h.symm (hminus _ _)
    · have hn := decimal_inj h
      omega

theorem decimalInt_char (h : c ∈ decimalInt x) : c = 45 ∨ 48 ≤ c.toNat ∧ c.toNat ≤ 57 := by
  unfold decimalInt at h
  split at h
  · rcases mem_cons.mp h with h | h
    · exact .inl h
    · exact .inr (decimal_digit h)
  · exact .inr (decimal_digit h)

theorem nul_decimal (n : Nat) : 0 ∉ decimal n := fun h => absurd (decimal_digit h) (by decide)

theorem nul_decimalInt (x : Int) : 0 ∉ decimalInt x :=
  fun h => absurd (decimalInt_char h) (by decide)

theorem readDecimal_lt {s : List UInt8} (h : ∀ c ∈ s, 48 ≤ c.toNat ∧ c.toNat ≤ 57) :
    readDecimal s < 10 ^ s.length := by
  induction s with
  | nil => decide
  | cons c s ih =>
    have hc := h c mem_cons_self
    have hs := ih fun d hd => h d (mem_cons_of_mem _ hd)
    have hhead : readDecimal [c] ≤ 9 := by
      simp only [readDecimal, foldl_cons, foldl_nil]
      omega
    rw [← singleton_append, readDecimal_append, length_append, Nat.pow_add]
    have hmul : readDecimal [c] * 10 ^ s.length ≤ 9 * 10 ^ s.length := Nat.mul_le_mul_right _ hhead
    simp only [length_singleton, Nat.pow_one]
    omega

theorem lt_decimal_length (h : 10 ^ k ≤ n) : k < (decimal n).length := by
  have hlt := readDecimal_lt fun c hc => decimal_digit (n := n) hc
  rw [readDecimal_decimal] at hlt
  exact (Nat.pow_lt_pow_iff_right (by decide)).mp (Nat.lt_of_le_of_lt h hlt)

theorem readDecimal_dropLast (h : (decimal n).length = k + 1) :
    readDecimal ((decimal n).take k) = n / 10 := by
  have hsplit := take_append_drop k (decimal n)
  have hone : ((decimal n).drop k).length = 1 := by
    rw [length_drop]
    omega
  have hlast := readDecimal_lt fun c hc => decimal_digit (n := n) (mem_of_mem_drop (i := k) hc)
  have hread := readDecimal_decimal n
  rw [← hsplit, readDecimal_append, hone, Nat.pow_one] at hread
  rw [hone, Nat.pow_one] at hlast
  omega

theorem readDecimal_replicate_zero (k : Nat) : readDecimal (List.replicate k 48) = 0 := by
  induction k with
  | zero => rfl
  | succ k ih =>
    rw [replicate_succ', readDecimal_append, ih]
    rfl

theorem decimalPad_inj {m : Nat} (h : decimalPad w m = decimalPad w n) : m = n := by
  have hr (k : Nat) : readDecimal (decimalPad w k) = k := by
    unfold decimalPad
    rw [readDecimal_append, readDecimal_replicate_zero, readDecimal_decimal]
    omega
  rw [← hr m, h, hr]

theorem decimalPad_digit (h : c ∈ decimalPad w n) : 48 ≤ c.toNat ∧ c.toNat ≤ 57 := by
  rcases mem_append.mp h with h | h
  · rw [eq_of_mem_replicate h]
    decide
  · exact decimal_digit h

end Pfs.Lib
