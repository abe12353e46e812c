import MagicCircle.Diagram.Complexity
import Mathlib.Analysis.SpecialFunctions.Log.Base
import Mathlib.Data.EReal.Operations

/-!
# Complexity over the extended reals

The arithmetic that complexity is meant in: exact, with the logarithm of zero below every number.
-/

namespace MagicCircle

open Classical in
noncomputable instance : Gauge EReal where
  num n := (n : EReal)
  log2 x := if x ≤ 0 then ⊥ else if x = ⊤ then ⊤ else (Real.logb 2 x.toReal : ℝ)

end MagicCircle
