/-
  A loop whose rounds may end it, with an environment that differs from round to round.
-/
import Mathlib.Data.List.Basic

namespace Pfs.Lib

variable {σ α : Type}

/-- The state after `n` rounds; round `n` meets the environment `env n`. -/
def after (step : σ → α → Option σ) (env : Nat → α) (s : σ) : Nat → Option σ
  | 0 => some s
  | n + 1 => (after step env s n).bind fun s' => step s' (env n)

end Pfs.Lib
