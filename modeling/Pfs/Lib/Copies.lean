/-
  A value that one party sends another from time to time, on a way that keeps the order but may lose
  what is on it.
-/
import Mathlib.Data.List.Basic

namespace Pfs.Lib

/-- The value, what was sent of it, what is on its way, and the reader's copy. -/
structure Copying (V : Type) where
  value : V
  sent : List V
  way : List V
  copy : V

namespace Copying

variable {V : Type}

def send (P : Copying V) : Copying V :=
  { P with sent := P.sent ++ [P.value], way := P.way ++ [P.value] }

/-- A move that neither writes the value nor loses anything. -/
inductive Steady : Copying V → Copying V → Prop where
  | quiet (P : Copying V) : Steady P P
  | send (P : Copying V) : Steady P P.send
  | arrive {P : Copying V} {v : V} {way : List V} (h : P.way = v :: way) :
      Steady P { P with way := way, copy := v }
  | trans {P Q R : Copying V} (h : Steady P Q) (h' : Steady Q R) : Steady P R

/-- What may happen. -/
inductive Move (P : Copying V) : Copying V → Prop where
  | steady {Q : Copying V} (h : Steady P Q) : Move P Q
  | write (v : V) : Move P { P with value := v }
  | lose {way : List V} (h : way.Sublist P.way) : Move P { P with way := way }

/-- The copy and what will replace it, from the first value on. -/
def Behind (v₀ : V) (P : Copying V) : Prop := (P.copy :: P.way).Sublist (v₀ :: P.sent)

/-- The value is the last one to arrive. -/
def Latest (P : Copying V) : Prop := (P.copy :: P.way).getLast? = some P.value

variable {P Q : Copying V}

theorem Steady.behind {v₀ : V} (hm : Steady P Q) (h : Behind v₀ P) : Behind v₀ Q := by
  induction hm with
  | quiet => exact h
  | send P => exact h.append (List.Sublist.refl [P.value])
  | arrive hway =>
    rw [Behind, hway] at h
    exact (List.sublist_cons_self _ _).trans h
  | trans _ _ ih ih' => exact ih' (ih h)

/-- No copy is replaced by an older one. -/
theorem Move.behind {v₀ : V} (hm : Move P Q) (h : Behind v₀ P) : Behind v₀ Q := by
  cases hm with
  | steady hm => exact hm.behind h
  | write v => exact h
  | lose hway => exact (hway.cons_cons _).trans h

theorem latest_send (P : Copying V) : Latest P.send := by
  rw [Latest, send, ← List.cons_append, List.getLast?_concat]

/-- A value that was sent stays the last one to arrive. -/
theorem Steady.latest (hm : Steady P Q) (h : Latest P) : Latest Q ∧ Q.value = P.value := by
  induction hm with
  | quiet => exact ⟨h, rfl⟩
  | send P => exact ⟨latest_send P, rfl⟩
  | arrive hway =>
    rw [Latest, hway, List.getLast?_cons_cons] at h
    exact ⟨h, rfl⟩
  | trans _ _ ih ih' =>
    obtain ⟨hQ, hv⟩ := ih h
    exact ⟨(ih' hQ).1, (ih' hQ).2.trans hv⟩

end Copying

end Pfs.Lib
