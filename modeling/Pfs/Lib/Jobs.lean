/-
  Jobs that are handed out to workers, one at a time, and come back when a worker leaves.

  Every hand-out is a request; requests are numbered in the order in which they are made. A request
  is pending until its worker answers it or leaves.
-/
import Mathlib.Data.List.Basic

namespace Pfs.Lib

open Function List

inductive JobStatus where
  | pending
  | answered
  | returned
  deriving DecidableEq, Repr

/-- `held w` is the job of worker `w` and the number of its request; `log` are the requests. -/
structure Jobs (J W : Type) where
  jobs : List J
  queue : List J
  held : W → Option (J × Nat)
  log : List (J × W)
  status : Nat → JobStatus

namespace Jobs

variable {J W : Type}

section Moves

variable [DecidableEq W]

def handOut (P : Jobs J W) (j : J) (q : List J) (w : W) : Jobs J W :=
  { P with
    queue := q
    held := update P.held w (some (j, P.log.length))
    log := P.log ++ [(j, w)] }

def answer (P : Jobs J W) (w : W) (k : Nat) : Jobs J W :=
  { P with
    held := update P.held w none
    status := update P.status k .answered }

def giveBack (P : Jobs J W) (w : W) (j : J) (k : Nat) : Jobs J W :=
  { P with
    queue := P.queue ++ [j]
    held := update P.held w none
    status := update P.status k .returned }

def add (P : Jobs J W) (j : J) : Jobs J W :=
  { P with jobs := P.jobs ++ [j], queue := P.queue ++ [j] }

/-- What may happen: a new job, a hand-out to an idle worker, an answer, a worker that leaves. -/
inductive Move (P : Jobs J W) : Jobs J W → Prop where
  | add (j : J) (h : j ∉ P.jobs) : Move P (P.add j)
  | handOut {j : J} {q : List J} {w : W} (hq : P.queue = j :: q) (hw : P.held w = none) :
      Move P (P.handOut j q w)
  | answer {w : W} {j : J} {k : Nat} (h : P.held w = some (j, k)) : Move P (P.answer w k)
  | giveBack {w : W} {j : J} {k : Nat} (h : P.held w = some (j, k)) : Move P (P.giveBack w j k)

end Moves

/-- No job is queued twice or queued while it is held; the pending requests are those that are held;
    a job that is neither queued nor held has been answered; a job that came back is queued or was
    handed out again. -/
structure Sound (P : Jobs J W) : Prop where
  nodup : P.queue.Nodup
  queued : ∀ j ∈ P.queue, j ∈ P.jobs
  apart : ∀ {w j k}, P.held w = some (j, k) → j ∉ P.queue
  single : ∀ {w w' j k k'}, P.held w = some (j, k) → P.held w' = some (j, k') → w = w'
  numbered : ∀ {w j k}, P.held w = some (j, k) → P.log[k]? = some (j, w)
  logged : ∀ {k : Nat} {j w}, P.log[k]? = some (j, w) → j ∈ P.jobs
  waiting : ∀ {k : Nat} {j w}, P.log[k]? = some (j, w) →
    (P.status k = .pending ↔ P.held w = some (j, k))
  later : ∀ k, P.log.length ≤ k → P.status k = .pending
  back : ∀ {k : Nat} {j w}, P.log[k]? = some (j, w) → P.status k = .returned →
    j ∈ P.queue ∨ ∃ (k' : Nat) (w' : W), k < k' ∧ P.log[k']? = some (j, w')
  tracked : ∀ j ∈ P.jobs, j ∈ P.queue ∨ (∃ w k, P.held w = some (j, k)) ∨
    ∃ (k : Nat) (w : W), P.log[k]? = some (j, w) ∧ P.status k = .answered

variable {P : Jobs J W}

variable {k : Nat} {r : J × W} {j : J} {w : W}

theorem lt_of_log (h : P.log[k]? = some r) : k < P.log.length :=
  (List.getElem?_eq_some_iff.mp h).1

variable [DecidableEq W]

theorem log_handOut {q : List J} (h : (P.handOut j q w).log[k]? = some r) :
    P.log[k]? = some r ∨ (k = P.log.length ∧ r = (j, w)) := by
  change (P.log ++ [(j, w)])[k]? = some r at h
  rcases Nat.lt_or_ge k P.log.length with hlt | hge
  · rw [getElem?_append_left hlt] at h
    exact .inl h
  rw [getElem?_append_right hge, getElem?_singleton, Option.ite_none_right_eq_some] at h
  obtain ⟨hk, hr⟩ := h
  exact .inr ⟨by omega, (Option.some.inj hr).symm⟩

theorem log_handOut_old {q : List J} (h : P.log[k]? = some r) :
    (P.handOut j q w).log[k]? = some r := by
  change (P.log ++ [(j, w)])[k]? = some r
  rw [getElem?_append_left (lt_of_log h), h]

theorem log_handOut_new (P : Jobs J W) (j : J) (q : List J) (w : W) :
    (P.handOut j q w).log[P.log.length]? = some (j, w) := by
  change (P.log ++ [(j, w)])[P.log.length]? = some (j, w)
  simp

theorem held_handOut {q : List J} {w' : W} {a : J}
    (h : (P.handOut j q w).held w' = some (a, k)) :
    (w' = w ∧ a = j ∧ k = P.log.length) ∨ P.held w' = some (a, k) := by
  change update P.held w (some (j, P.log.length)) w' = some (a, k) at h
  by_cases hww : w' = w
  · rw [hww, update_self] at h
    cases h
    exact .inl ⟨hww, rfl, rfl⟩
  · rw [update_of_ne hww] at h
    exact .inr h

theorem held_handOut_old {q : List J} {w' : W} {r : J × Nat} (hw : P.held w = none)
    (h : P.held w' = some r) : (P.handOut j q w).held w' = some r := by
  have hww : w' ≠ w := by
    rintro rfl
    cases hw.symm.trans h
  exact (update_of_ne hww _ _).trans h

theorem held_of_update_none {w' : W} {r : J × Nat}
    (h : update P.held w none w' = some r) : w' ≠ w ∧ P.held w' = some r := by
  by_cases hw : w' = w
  · rw [hw, update_self] at h
    cases h
  · rw [update_of_ne hw] at h
    exact ⟨hw, h⟩

namespace Sound

variable {j : J} {w : W} {k : Nat}

omit [DecidableEq W] in
theorem add (S : Sound P) (hj : j ∉ P.jobs) : Sound (P.add j) where
  nodup := by
    refine nodup_append.mpr ⟨S.nodup, by simp, fun a ha b hb e => hj ?_⟩
    rw [← mem_singleton.mp hb, ← e]
    exact S.queued a ha
  queued := by
    intro a ha
    rcases mem_append.mp ha with ha | ha
    · exact mem_append_left _ (S.queued a ha)
    · exact mem_append_right _ ha
  apart := by
    intro w a k h ha
    rcases mem_append.mp ha with ha | ha
    · exact S.apart h ha
    · rw [mem_singleton.mp ha] at h
      exact hj (S.logged (S.numbered h))
  single := S.single
  numbered := S.numbered
  logged h := mem_append_left _ (S.logged h)
  waiting := S.waiting
  later := S.later
  back h hr := (S.back h hr).imp_left (mem_append_left _)
  tracked := by
    intro a ha
    rcases mem_append.mp ha with ha | ha
    · exact (S.tracked a ha).imp_left (mem_append_left _)
    · exact .inl (mem_append_right _ ha)

theorem handOut (S : Sound P) {q : List J} (hq : P.queue = j :: q)
    (hw : P.held w = none) : Sound (P.handOut j q w) := by
  have hnd : (j :: q).Nodup := hq ▸ S.nodup
  have hjq : j ∉ q := (nodup_cons.mp hnd).1
  have hmem : ∀ a, a ∈ P.queue ↔ a = j ∨ a ∈ q := fun a => by rw [hq]; exact mem_cons
  have hfree : ∀ {w' k}, P.held w' ≠ some (j, k) := fun h => S.apart h ((hmem j).mpr (Or.inl rfl))
  constructor
  · exact (nodup_cons.mp hnd).2
  · exact fun a ha => S.queued a ((hmem a).mpr (Or.inr ha))
  · intro w' a k h ha
    rcases held_handOut h with ⟨-, rfl, -⟩ | h
    · exact hjq ha
    · exact S.apart h ((hmem a).mpr (Or.inr ha))
  · intro w' w'' a k k' h h'
    rcases held_handOut h with ⟨hw₁, ha₁, -⟩ | h
    · rcases held_handOut h' with ⟨hw₂, -, -⟩ | h'
      · rw [hw₁, hw₂]
      · exact absurd (ha₁ ▸ h') hfree
    · rcases held_handOut h' with ⟨-, ha₂, -⟩ | h'
      · exact absurd (ha₂ ▸ h) hfree
      · exact S.single h h'
  · intro w' a k h
    rcases held_handOut h with ⟨rfl, rfl, rfl⟩ | h
    · exact log_handOut_new P a q w'
    · exact log_handOut_old (S.numbered h)
  · intro k a w' h
    rcases log_handOut h with h | ⟨-, he⟩
    · exact S.logged h
    · cases he
      exact S.queued j ((hmem j).mpr (Or.inl rfl))
  · intro k a w' h
    change P.status k = .pending ↔ _
    rcases log_handOut h with h | ⟨rfl, he⟩
    · rw [S.waiting h]
      refine ⟨held_handOut_old hw, fun h' => ?_⟩
      rcases held_handOut h' with ⟨-, -, rfl⟩ | h'
      · exact absurd (lt_of_log h) (Nat.lt_irrefl _)
      · exact h'
    · cases he
      exact ⟨fun _ => update_self _ _ _, fun _ => S.later _ (Nat.le_refl _)⟩
  · intro k hk
    refine S.later k ?_
    change (P.log ++ [(j, w)]).length ≤ k at hk
    rw [length_append] at hk
    omega
  · intro k a w' h hr
    rcases log_handOut h with h | ⟨rfl, -⟩
    · have hlt := lt_of_log h
      rcases S.back h hr with ha | ⟨k', w'', hk, hl⟩
      · rcases (hmem a).mp ha with rfl | ha
        · exact .inr ⟨P.log.length, w, hlt, log_handOut_new P a q w⟩
        · exact .inl ha
      · exact .inr ⟨k', w'', hk, log_handOut_old hl⟩
    · rw [show (P.handOut j q w).status = P.status from rfl, S.later _ (Nat.le_refl _)] at hr
      cases hr
  · intro a ha
    rcases S.tracked a ha with hqa | ⟨w', k, h⟩ | ⟨k, w', h, hs⟩
    · rcases (hmem a).mp hqa with rfl | hqa
      · exact .inr (.inl ⟨w, P.log.length, update_self _ _ _⟩)
      · exact .inl hqa
    · exact .inr (.inl ⟨w', k, held_handOut_old hw h⟩)
    · exact .inr (.inr ⟨k, w', log_handOut_old h, hs⟩)

theorem waiting_settle (S : Sound P) (hw : P.held w = some (j, k))
    {st : JobStatus} (hst : st ≠ .pending) {k' : Nat} {a : J} {w' : W}
    (h : P.log[k']? = some (a, w')) :
    update P.status k st k' = .pending ↔ update P.held w none w' = some (a, k') := by
  by_cases hk : k' = k
  · subst hk
    have he : some (a, w') = some (j, w) := h.symm.trans (S.numbered hw)
    cases he
    simp [hst]
  · rw [update_of_ne hk, S.waiting h]
    by_cases hww : w' = w
    · subst hww
      rw [hw, update_self]
      simp [Ne.symm hk]
    · rw [update_of_ne hww]

omit [DecidableEq W] in
theorem later_settle (S : Sound P) (hw : P.held w = some (j, k))
    (st : JobStatus) {k' : Nat} (h : P.log.length ≤ k') :
    update P.status k st k' = .pending := by
  have hlt := lt_of_log (S.numbered hw)
  rw [update_of_ne (by omega)]
  exact S.later k' h

/-- A worker is done with its request; its job is queued again, or not. -/
theorem settle (S : Sound P) (hw : P.held w = some (j, k)) {js : List J} {st : JobStatus}
    (hend : js = [] ∧ st = .answered ∨ js = [j] ∧ st = .returned) :
    Sound { P with
      queue := P.queue ++ js, held := update P.held w none, status := update P.status k st } := by
  have hjs : ∀ a ∈ js, a = j := by rcases hend with ⟨rfl, -⟩ | ⟨rfl, -⟩ <;> simp
  have hst : st ≠ .pending := by rcases hend with ⟨-, rfl⟩ | ⟨-, rfl⟩ <;> decide
  constructor
  · refine nodup_append.mpr ⟨S.nodup, ?_, fun a ha b hb e => S.apart hw ?_⟩
    · rcases hend with ⟨rfl, -⟩ | ⟨rfl, -⟩ <;> simp
    · rw [← hjs b hb, ← e]
      exact ha
  · intro a ha
    rcases mem_append.mp ha with ha | ha
    · exact S.queued a ha
    · rw [hjs a ha]
      exact S.logged (S.numbered hw)
  · intro w' a k' h ha
    obtain ⟨hne, h⟩ := held_of_update_none h
    rcases mem_append.mp ha with ha | ha
    · exact S.apart h ha
    · rw [hjs a ha] at h
      exact hne (S.single h hw)
  · exact fun h h' => S.single (held_of_update_none h).2 (held_of_update_none h').2
  · exact fun h => S.numbered (held_of_update_none h).2
  · exact S.logged
  · exact fun h => S.waiting_settle hw hst h
  · exact fun _ h => S.later_settle hw _ h
  · intro k' a w' h hr
    change update P.status k st k' = .returned at hr
    by_cases hk : k' = k
    · subst hk
      have he : some (a, w') = some (j, w) := h.symm.trans (S.numbered hw)
      cases he
      rw [update_self] at hr
      rcases hend with ⟨-, rfl⟩ | ⟨rfl, -⟩
      · cases hr
      · exact .inl (mem_append_right _ (mem_singleton_self _))
    · rw [update_of_ne hk] at hr
      exact (S.back h hr).imp_left (mem_append_left _)
  · intro a ha
    rcases S.tracked a ha with hq | ⟨w', k', h⟩ | ⟨k', w', h, hs⟩
    · exact .inl (mem_append_left _ hq)
    · by_cases hww : w' = w
      · subst hww
        have he : some (a, k') = some (j, k) := h.symm.trans hw
        cases he
        rcases hend with ⟨-, rfl⟩ | ⟨rfl, -⟩
        · exact .inr (.inr ⟨_, _, S.numbered hw, update_self _ _ _⟩)
        · exact .inl (mem_append_right _ (mem_singleton_self _))
      · exact .inr (.inl ⟨w', k', (update_of_ne hww _ _).trans h⟩)
    · refine .inr (.inr ⟨k', w', h, ?_⟩)
      -- the request of the worker is pending, so it is not the answered one
      have hk : k' ≠ k := by
        rintro rfl
        have hp := (S.waiting (S.numbered hw)).mpr hw
        cases hp.symm.trans hs
      exact (update_of_ne hk _ _).trans hs

theorem answer (S : Sound P) (hw : P.held w = some (j, k)) : Sound (P.answer w k) := by
  have hsettle := S.settle hw (.inl ⟨rfl, rfl⟩)
  rwa [append_nil] at hsettle

theorem giveBack (S : Sound P) (hw : P.held w = some (j, k)) : Sound (P.giveBack w j k) :=
  S.settle hw (.inr ⟨rfl, rfl⟩)

end Sound

/-- Every move keeps the jobs sound. -/
theorem Move.sound {P' : Jobs J W} (m : Move P P') (S : Sound P) : Sound P' := by
  cases m with
  | add j h => exact S.add h
  | handOut hq hw => exact S.handOut hq hw
  | answer h => exact S.answer h
  | giveBack h => exact S.giveBack h

omit [DecidableEq W] in
/-- **All done**: nothing is queued and nothing is held. -/
theorem Sound.all_done (S : Sound P) (hq : P.queue = []) (hh : ∀ w, P.held w = none)
    (h : P.log[k]? = some (j, w)) :
    P.status k = .answered ∨
      (P.status k = .returned ∧ ∃ (k' : Nat) (w' : W), k < k' ∧ P.log[k']? = some (j, w')) := by
  cases hs : P.status k with
  | pending =>
    have hw := (S.waiting h).mp hs
    rw [hh w] at hw
    cases hw
  | answered => exact .inl rfl
  | returned =>
    refine .inr ⟨rfl, (S.back h hs).resolve_left ?_⟩
    rw [hq]
    exact not_mem_nil

end Jobs

end Pfs.Lib
