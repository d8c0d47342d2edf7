/-
  Incremental digests: a context that is updated piece by piece.

  The one law is that an update absorbs its bytes one after the other. A length argument of type
  `unsigned` bounds a single update, not the stream.
-/
import Mathlib.Algebra.Ring.Int.Defs
import Mathlib.Algebra.Ring.Nat
import Mathlib.Data.List.Basic

namespace Pfs.Lib

/-- An incremental digest with contexts in `C`. `final` returns the digest and the context it
    leaves behind, of which nothing is required. -/
structure IncDigest (C : Type) where
  init : C
  absorb : C → UInt8 → C
  update : C → List UInt8 → C
  final : C → List UInt8 × C
  update_eq : ∀ c b, b.length < 2 ^ 32 → update c b = b.foldl absorb c

namespace IncDigest

variable {C : Type} (D : IncDigest C)

def after (bs : List UInt8) : C := bs.foldl D.absorb D.init

def digest (bs : List UInt8) : List UInt8 := (D.final (D.after bs)).1

/-- An update with the next piece gives the context of the longer string. -/
theorem update_after (bs : List UInt8) {x : List UInt8} (h : x.length < 2 ^ 32) :
    D.update (D.after bs) x = D.after (bs ++ x) := by
  unfold after
  rw [D.update_eq _ _ h, List.foldl_append]

end IncDigest

end Pfs.Lib
