/-
  Runs of a machine whose step may fail, with a condition on every step taken.
-/
import Mathlib.Data.List.Basic

namespace Pfs.Lib

variable {σ α : Type}

/-- The states reached from `s₀` by steps that meet `ok`. A step that yields `none` has no
    successor: the machine has stopped there. -/
inductive Run (step : σ → α → Option σ) (ok : σ → α → Prop) (s₀ : σ) : σ → Prop where
  | start : Run step ok s₀ s₀
  | next {s s' : σ} {a : α} (h : Run step ok s₀ s) (hok : ok s a) (hs : step s a = some s') :
      Run step ok s₀ s'

/-- Every run of the machine. -/
def Reach (step : σ → α → Option σ) (s₀ s : σ) : Prop := Run step (fun _ _ => True) s₀ s

variable {step : σ → α → Option σ} {ok : σ → α → Prop} {s₀ s : σ}

/-- **The invariant rule.** -/
theorem Run.inv {I : σ → Prop} (h0 : I s₀)
    (hstep : ∀ s s' a, I s → ok s a → step s a = some s' → I s') (h : Run step ok s₀ s) : I s := by
  induction h with
  | start => exact h0
  | next _ hok hs ih => exact hstep _ _ _ ih hok hs

theorem Run.mono {ok' : σ → α → Prop} (hok : ∀ s a, ok s a → ok' s a) (h : Run step ok s₀ s) :
    Run step ok' s₀ s := by
  induction h with
  | start => exact .start
  | next _ h hs ih => exact .next ih (hok _ _ h) hs

/-- Execute a list of actions; `none` as soon as one of them stops the machine. -/
def exec (step : σ → α → Option σ) : σ → List α → Option σ
  | s, [] => some s
  | s, a :: as => (step s a).bind fun s' => exec step s' as

/-- Names the state that a list of actions ends in. -/
theorem exec_eq_getD {as : List α} (d : σ) (h : (exec step s as).isSome = true) :
    exec step s as = some ((exec step s as).getD d) := by
  obtain ⟨t, ht⟩ := Option.isSome_iff_exists.mp h
  rw [ht, Option.getD_some]

/-- What a step does to a bound that grows by one, a list of actions does to one that grows by its
    length. -/
theorem exec_bound {I : Nat → σ → Prop}
    (hstep : ∀ n s s' a, I n s → step s a = some s' → I (n + 1) s') {n : Nat} {as : List α} {s' : σ}
    (h0 : I n s) (h : exec step s as = some s') : I (n + as.length) s' := by
  induction as generalizing n s with
  | nil =>
    cases h
    exact h0
  | cons a as ih =>
    obtain ⟨t, hs, ht⟩ := Option.bind_eq_some_iff.mp h
    rw [List.length_cons, Nat.add_comm as.length, ← Nat.add_assoc]
    exact ih (hstep n s t a h0 hs) ht

/-- The actions meet `ok`, one after the other. -/
def Meets (step : σ → α → Option σ) (ok : σ → α → Prop) : σ → List α → Prop
  | _, [] => True
  | s, a :: as => ok s a ∧ ∀ s', step s a = some s' → Meets step ok s' as

/-- Of given actions it can be computed whether they meet `ok`. -/
instance decidableMeets {step : σ → α → Option σ} {ok : σ → α → Prop}
    [hok : ∀ s a, Decidable (ok s a)] : ∀ s as, Decidable (Meets step ok s as)
  | _, [] => isTrue trivial
  | s, a :: as =>
    match hs : step s a with
    | none => decidable_of_iff (ok s a)
        ⟨fun h => ⟨h, fun s' h' => by rw [hs] at h'; cases h'⟩, fun h => h.1⟩
    | some t =>
      have : Decidable (Meets step ok t as) := decidableMeets t as
      decidable_of_iff (ok s a ∧ Meets step ok t as)
        ⟨fun h => ⟨h.1, fun s' h' => by rw [hs] at h'; cases h'; exact h.2⟩,
          fun h => ⟨h.1, h.2 t hs⟩⟩

/-- A list of actions executed one after the other is a run. -/
theorem run_of_exec {s s' : σ} (as : List α) (h0 : Run step ok s₀ s) (hm : Meets step ok s as)
    (h : exec step s as = some s') : Run step ok s₀ s' := by
  induction as generalizing s with
  | nil =>
    cases h
    exact h0
  | cons a as ih =>
    cases hs : step s a with
    | none => simp [exec, hs] at h
    | some t =>
      have ht : exec step t as = some s' := by simpa [exec, hs] using h
      exact ih (.next h0 hm.1 hs) (hm.2 t hs) ht

/-- **The simulation rule.** `R` relates the machine to an abstract state; every step that meets
    `ok` succeeds and follows the abstract step. -/
theorem exec_simulates {τ : Type} (R : σ → τ → Prop) (spec : τ → α → τ)
    (hstep : ∀ s t a, R s t → ok s a → ∃ s', step s a = some s' ∧ R s' (spec t a)) {as : List α} :
    ∀ {s : σ} {t : τ}, R s t → Meets step ok s as →
      ∃ s', exec step s as = some s' ∧ R s' (as.foldl spec t) := by
  induction as with
  | nil => exact fun h _ => ⟨_, rfl, h⟩
  | cons a as ih =>
    intro s t h hm
    obtain ⟨s₁, hs, h₁⟩ := hstep s t a h hm.1
    obtain ⟨s', he, h'⟩ := ih h₁ (hm.2 s₁ hs)
    refine ⟨s', ?_, h'⟩
    rw [exec, hs, Option.bind_some, he]

theorem meets_true (s : σ) (as : List α) : Meets step (fun _ _ => True) s as := by
  induction as generalizing s with
  | nil => trivial
  | cons a as ih => exact ⟨trivial, fun s' _ => ih s'⟩

theorem reach_of_exec {s s' : σ} (as : List α) (h0 : Reach step s₀ s)
    (h : exec step s as = some s') : Reach step s₀ s' :=
  run_of_exec as h0 (meets_true s as) h

section Outcome

variable {ε β γ : Type} {E : ε → Prop} {P : β → Prop} {x : Except ε β}

/-- A computation ends in a value with `Q`, or in an error with `E`. -/
def Outcome (E : ε → Prop) (Q : β → Prop) : Except ε β → Prop
  | .ok a => Q a
  | .error f => E f

def Yields (Q : β → Prop) : Except ε β → Prop := Outcome (fun _ => True) Q

theorem Outcome.map {Q : γ → Prop} {f : β → γ} (h : Outcome E P x) (hf : ∀ a, P a → Q (f a)) :
    Outcome E Q (x.map f) := by
  cases x with
  | ok a => exact hf a h
  | error _ => exact h

theorem Outcome.imp {E' : ε → Prop} {Q : β → Prop} (h : Outcome E P x) (he : ∀ f, E f → E' f)
    (hf : ∀ a, P a → Q a) : Outcome E' Q x := by
  cases x with
  | ok a => exact hf a h
  | error f => exact he f h

theorem Outcome.mono {Q : β → Prop} (h : Outcome E P x) (hf : ∀ a, P a → Q a) : Outcome E Q x :=
  h.imp (fun _ => id) hf

theorem Outcome.yields (h : Outcome E P x) : Yields P x := h.imp (fun _ _ => trivial) fun _ => id

theorem Outcome.of_ok {a : β} (h : Outcome E P x) (hx : x = .ok a) : P a := by
  rw [hx] at h
  exact h

theorem Outcome.of_error {f : ε} (h : Outcome E P x) (hx : x = .error f) : E f := by
  rw [hx] at h
  exact h

end Outcome

end Pfs.Lib
