import MagicCircle.Decimal.Numeral
import Mathlib.Algebra.Group.Nat.Defs

/-!
# Numerals of fractions

What a numeral is like that is written for a number from zero to one.
-/

namespace MagicCircle.Decimal.Numeral

/-- The numeral is made of digits, and has none before the point that is left out in writing. -/
structure Legible (n : Numeral) : Prop where
  whole : ∀ d ∈ n.whole, d < 10
  fraction : ∀ d ∈ n.fraction, d < 10
  nonempty : n.whole ≠ []
  no_leading_zero : n.whole.head? = some 0 → n.whole = [0]

/-- The numeral is that of the fraction `w / 10 ^ j`, which is positive and at most one. -/
structure IsFraction (n : Numeral) (w j : Nat) : Prop where
  legible : n.Legible
  unsigned : n.negative = false
  scaled : n.scaled = (w, -(j : Int))
  exponent : n.exponent.getD 0 ≤ 0
  pos : 0 < w
  le_word : w ≤ 10 ^ 17
  le_one : w ≤ 10 ^ j
  places_pos : 0 < j
  places_le : j ≤ 340

end MagicCircle.Decimal.Numeral
