/-
  Decoding a stream frame by frame, and why chunk boundaries cannot matter.

  A `Framer` takes one frame from the front of a buffer. Its two laws are what a length-prefixed
  format gives: a decoded frame consumes something (`shrink`), and bytes that arrive later do not
  change a frame that is already complete (`stable`).
-/
import Mathlib.Algebra.Ring.Int.Defs
import Mathlib.Algebra.Ring.Nat
import Mathlib.Data.List.Basic

namespace Pfs.Lib

variable {α μ τ : Type}

/-- A decoder of one frame from the front of a buffer; `none`: no complete frame is there yet. -/
structure Framer (α μ : Type) where
  next : List α → Option (μ × List α)
  shrink : ∀ {b m r}, next b = some (m, r) → r.length < b.length
  stable : ∀ {b m r} (x : List α), next b = some (m, r) → next (b ++ x) = some (m, r ++ x)

namespace Framer

variable (F : Framer α μ)

def drain : Nat → List α → List μ × List α
  | 0, b => ([], b)
  | n + 1, b =>
    match F.next b with
    | none => ([], b)
    | some (m, r) => (m :: (drain n r).1, (drain n r).2)

def frames (b : List α) : List μ := (F.drain b.length b).1

/-- What is left of a buffer once its complete frames are taken. -/
def rest (b : List α) : List α := (F.drain b.length b).2

/-- A buffer of `n` bytes holds at most `n` frames: more fuel changes nothing. -/
theorem drain_fuel {n : Nat} {b : List α} (h : b.length ≤ n) :
    F.drain n b = F.drain b.length b := by
  induction n using Nat.strongRecOn generalizing b with
  | ind n ih =>
    cases n with
    | zero =>
      have hb : b = [] := List.length_eq_zero_iff.mp (Nat.le_zero.mp h)
      subst hb
      rfl
    | succ n =>
      cases hn : F.next b with
      | none =>
        cases hb : b.length with
        | zero => simp [drain, hn]
        | succ k => simp [drain, hn]
      | some p =>
        obtain ⟨m, r⟩ := p
        have hs := F.shrink hn
        obtain ⟨k, hk⟩ : ∃ k, b.length = k + 1 := ⟨b.length - 1, by omega⟩
        have h1 := ih n (by omega) (b := r) (by omega)
        have h2 := ih k (by omega) (b := r) (by omega)
        rw [hk]
        simp only [drain, hn, h1, h2]

theorem frames_of_none {b : List α} (h : F.next b = none) : F.frames b = [] := by
  unfold frames
  cases hb : b.length <;> simp [drain, h]

theorem rest_of_none {b : List α} (h : F.next b = none) : F.rest b = b := by
  unfold rest
  cases hb : b.length <;> simp [drain, h]

theorem drain_of_some {b r : List α} {m : μ} (h : F.next b = some (m, r)) :
    F.drain b.length b = (m :: F.frames r, F.rest r) := by
  have hs := F.shrink h
  obtain ⟨k, hk⟩ : ∃ k, b.length = k + 1 := ⟨b.length - 1, by omega⟩
  rw [hk]
  simp only [drain, h, frames, rest]
  rw [F.drain_fuel (n := k) (by omega)]

theorem frames_of_some {b r : List α} {m : μ} (h : F.next b = some (m, r)) :
    F.frames b = m :: F.frames r := by
  unfold frames
  rw [F.drain_of_some h]
  rfl

theorem rest_of_some {b r : List α} {m : μ} (h : F.next b = some (m, r)) : F.rest b = F.rest r := by
  unfold rest
  rw [F.drain_of_some h]
  rfl

theorem frame_induction {P : List α → Prop} (hnone : ∀ b, F.next b = none → P b)
    (hsome : ∀ b m r, F.next b = some (m, r) → P r → P b) (b : List α) : P b := by
  induction hn : b.length using Nat.strongRecOn generalizing b with
  | ind n ih =>
    cases h : F.next b with
    | none => exact hnone b h
    | some p =>
      obtain ⟨m, r⟩ := p
      exact hsome b m r h (ih r.length (hn ▸ F.shrink h) r rfl)

theorem next_rest (b : List α) : F.next (F.rest b) = none := by
  induction b using F.frame_induction with
  | hnone b h => rw [F.rest_of_none h, h]
  | hsome b m r h ih => rw [F.rest_of_some h, ih]

/-- **Chunk boundaries do not matter**, the frames: what has arrived, then the leftover with the
    next chunk. -/
theorem frames_append (b x : List α) :
    F.frames (b ++ x) = F.frames b ++ F.frames (F.rest b ++ x) := by
  induction b using F.frame_induction with
  | hnone b h => rw [F.frames_of_none h, F.rest_of_none h, List.nil_append]
  | hsome b m r h ih =>
    rw [F.frames_of_some (F.stable x h), F.frames_of_some h, F.rest_of_some h, ih, List.cons_append]

theorem rest_append (b x : List α) : F.rest (b ++ x) = F.rest (F.rest b ++ x) := by
  induction b using F.frame_induction with
  | hnone b h => rw [F.rest_of_none h]
  | hsome b m r h ih => rw [F.rest_of_some (F.stable x h), F.rest_of_some h, ih]

end Framer

/-! ## Serving frames until the handler asks to stop -/

/-- Hand the messages to `h` one by one, up to and including the first one for which it asks to
    stop. The result is the handler's state, the messages it was given and whether it stopped. -/
def serve (h : τ → μ → τ × Bool) : τ → List μ → τ × List μ × Bool
  | t, [] => (t, [], false)
  | t, m :: ms =>
    if (h t m).2 then ((h t m).1, [m], true)
    else
      let r := serve h (h t m).1 ms
      (r.1, m :: r.2.1, r.2.2)

variable {h : τ → μ → τ × Bool} {t : τ}

theorem serve_cons_of_stop {m : μ} {ms : List μ} (hm : (h t m).2 = true) :
    serve h t (m :: ms) = ((h t m).1, [m], true) := by
  simp [serve, hm]

theorem serve_cons_of_go {m : μ} {ms : List μ} (hm : (h t m).2 = false) :
    serve h t (m :: ms) = ((serve h (h t m).1 ms).1, m :: (serve h (h t m).1 ms).2.1,
      (serve h (h t m).1 ms).2.2) := by
  simp [serve, hm]

/-- What more frames add while the handler goes on. -/
theorem serve_append_of_go {xs : List μ} (ys : List μ) (hgo : (serve h t xs).2.2 = false) :
    serve h t (xs ++ ys) =
      ((serve h (serve h t xs).1 ys).1, (serve h t xs).2.1 ++ (serve h (serve h t xs).1 ys).2.1,
        (serve h (serve h t xs).1 ys).2.2) := by
  induction xs generalizing t with
  | nil => simp [serve]
  | cons m ms ih =>
    cases hm : (h t m).2 with
    | true => simp [serve_cons_of_stop hm] at hgo
    | false =>
      rw [serve_cons_of_go hm] at hgo
      rw [List.cons_append, serve_cons_of_go hm, serve_cons_of_go hm, ih hgo]
      rfl

/-- Once the handler has stopped, more frames add nothing. -/
theorem serve_append_of_stop {xs : List μ} (ys : List μ) (hstop : (serve h t xs).2.2 = true) :
    serve h t (xs ++ ys) = serve h t xs := by
  induction xs generalizing t with
  | nil => simp [serve] at hstop
  | cons m ms ih =>
    cases hm : (h t m).2 with
    | true => rw [List.cons_append, serve_cons_of_stop hm, serve_cons_of_stop hm]
    | false =>
      rw [serve_cons_of_go hm] at hstop
      rw [List.cons_append, serve_cons_of_go hm, serve_cons_of_go hm, ih hstop]

theorem serve_go (hgo : ∀ t m, (h t m).2 = false) (t : τ) (ms : List μ) :
    (serve h t ms).2.2 = false := by
  induction ms generalizing t with
  | nil => rfl
  | cons m ms ih =>
    rw [serve_cons_of_go (hgo t m)]
    exact ih _

end Pfs.Lib
