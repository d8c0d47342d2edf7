/-
  A cursor that goes round through `n` places.
-/
import Mathlib.Data.List.Rotate

namespace Pfs.Lib

def cursorNext (n i : Nat) : Nat := if n ≤ i + 1 then 0 else i + 1

variable {n i : Nat}

theorem cursorNext_lt (h : i < n) : cursorNext n i < n := by
  unfold cursorNext
  split <;> omega

theorem cursorNext_eq_mod (h : i < n) : cursorNext n i = (i + 1) % n := by
  unfold cursorNext
  split
  · have hlast : i + 1 = n := by omega
    rw [hlast, Nat.mod_self]
  · exact (Nat.mod_eq_of_lt (by omega)).symm

def visits (n : Nat) : Nat → Nat → List Nat
  | 0, _ => []
  | k + 1, i => i :: visits n k (cursorNext n i)

theorem length_visits (n k i : Nat) : (visits n k i).length = k := by
  induction k generalizing i with
  | zero => rfl
  | succ k ih => rw [visits, List.length_cons, ih]

theorem getElem_visits {k j : Nat} (hi : i < n) (hj : j < (visits n k i).length) :
    (visits n k i)[j] = (j + i) % n := by
  induction k generalizing i j with
  | zero => cases hj
  | succ k ih =>
    cases j with
    | zero =>
      rw [Nat.zero_add, Nat.mod_eq_of_lt hi]
      rfl
    | succ j =>
      have hj' : j < (visits n k (cursorNext n i)).length := by
        rw [visits, List.length_cons] at hj
        omega
      simp only [visits, List.getElem_cons_succ]
      rw [ih (cursorNext_lt hi) hj', cursorNext_eq_mod hi, Nat.add_mod_mod]
      congr 1
      omega

/-- **Every place once.** -/
theorem visits_perm (hi : i < n) : (visits n n i).Perm (List.range n) := by
  have hrotate : visits n n i = (List.range n).rotate i := by
    refine List.ext_getElem (by simp [length_visits]) fun j hj _ => ?_
    rw [getElem_visits hi hj, List.getElem_rotate, List.getElem_range, List.length_range]
  rw [hrotate]
  exact List.rotate_perm _ _

end Pfs.Lib
