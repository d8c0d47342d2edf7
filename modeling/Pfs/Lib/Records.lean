/-
  Files of records of one size.
-/
import Mathlib.Data.List.Basic

namespace Pfs.Lib

open List

variable {α : Type} {n : Nat} {rs : List (List α)}

/-- What a read of `n` bytes at the `i`th record gives; at the end of the file less, behind it
    nothing. -/
def recordAt (n : Nat) (f : List α) (i : Nat) : List α := (f.drop (n * i)).take n

theorem length_records (h : ∀ r ∈ rs, r.length = n) : rs.flatten.length = n * rs.length := by
  induction rs with
  | nil => simp
  | cons r rs ih =>
    rw [flatten_cons, length_append, h r mem_cons_self,
      ih fun q hq => h q (mem_cons_of_mem _ hq), length_cons, Nat.mul_succ, Nat.add_comm]

theorem drop_records (h : ∀ r ∈ rs, r.length = n) (i : Nat) :
    rs.flatten.drop (n * i) = (rs.drop i).flatten := by
  induction i generalizing rs with
  | zero => simp
  | succ i ih =>
    cases rs with
    | nil => simp
    | cons r rs =>
      have hr := h r mem_cons_self
      rw [flatten_cons, Nat.mul_succ, Nat.add_comm, ← drop_drop, ← hr,
        drop_left, hr, ih fun q hq => h q (mem_cons_of_mem _ hq), drop_succ_cons]

/-- **The `i`th record is the `i`th that was written.** -/
theorem recordAt_flatten (h : ∀ r ∈ rs, r.length = n) (i : Nat) :
    recordAt n rs.flatten i = (rs[i]?).getD [] := by
  rw [recordAt, drop_records h]
  cases hget : rs[i]? with
  | none =>
    rw [drop_eq_nil_of_le (List.getElem?_eq_none_iff.mp hget)]
    simp
  | some r =>
    obtain ⟨hi, hr⟩ := List.getElem?_eq_some_iff.mp hget
    have hlen : r.length = n := h r (hr ▸ getElem_mem hi)
    rw [drop_eq_getElem_cons hi, hr, flatten_cons, ← hlen, take_left, Option.getD_some]

def putRecord (n : Nat) (f : List α) (i : Nat) (r : List α) : List α :=
  f.take (n * i) ++ r ++ f.drop (n * i + n)

section Put

variable {f r : List α} {i j : Nat}

theorem length_put (hr : r.length = n) (hi : n * i + n ≤ f.length) :
    (putRecord n f i r).length = f.length := by
  simp only [putRecord, length_append, length_take, length_drop, hr]
  omega

theorem recordAt_put (hr : r.length = n) (hi : n * i ≤ f.length) :
    recordAt n (putRecord n f i r) i = r := by
  have htake : (f.take (n * i)).length = n * i := length_take_of_le hi
  rw [recordAt, putRecord, append_assoc, drop_append_of_le_length (Nat.le_of_eq htake.symm),
    drop_eq_nil_of_le (Nat.le_of_eq htake), nil_append, take_left' hr]

theorem recordAt_put_ne (hr : r.length = n) (hi : n * i ≤ f.length) (h : j ≠ i) :
    recordAt n (putRecord n f i r) j = recordAt n f j := by
  have htake : (f.take (n * i)).length = n * i := length_take_of_le hi
  rw [recordAt, recordAt, putRecord, append_assoc]
  obtain hlt | hgt := Nat.lt_or_gt_of_ne h
  · have hle : n * (j + 1) ≤ n * i := Nat.mul_le_mul_left n hlt
    rw [Nat.mul_succ] at hle
    rw [drop_append_of_le_length (by omega), take_append_of_le_length (by rw [length_drop]; omega),
      drop_take, take_take, Nat.min_eq_left (by omega)]
  · have hle : n * (i + 1) ≤ n * j := Nat.mul_le_mul_left n hgt
    rw [Nat.mul_succ] at hle
    have hlen : (f.take (n * i) ++ r).length = n * i + n := by rw [length_append, htake, hr]
    rw [← append_assoc, drop_append, drop_eq_nil_of_le (by omega), nil_append, hlen,
      drop_drop, Nat.add_sub_cancel' hle]

end Put

end Pfs.Lib
