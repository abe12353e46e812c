import MagicCircle.Double.Basic

/-!
# The nearest double

A number that is not negative is rounded to the nearest mantissa at the exponent for its size; of two
equally near ones it is the even one. The numbers that are rounded to one and the same double are
those between two bounds.
-/

namespace MagicCircle.Double

/-- The number is rounded to the mantissa `r` at the exponent `t`, which is `2 ^ 53` if rounding made
it one bit too long. -/
structure Nearest (z : ℚ) (r : Nat) (t : Int) : Prop where
  nonneg : 0 ≤ z
  least : -1074 ≤ t
  low : t = -1074 ∨ 2 ^ (t + 52) ≤ z
  high : z < 2 ^ (t + 53)
  half : |r * 2 ^ t - z| ≤ 2 ^ t / 2
  even : |r * 2 ^ t - z| = 2 ^ t / 2 → r % 2 = 0

/-- How far below the double, in units of its last place, numbers are still rounded to it. The double
below is nearer when the mantissa is the least of its exponent. -/
def marginBelow (m : Nat) (q : Int) : ℚ := if m = 2 ^ 52 ∧ -1074 < q then 1 / 4 else 1 / 2

/-- The number is rounded to `m · 2 ^ q`: it lies between the points halfway to the two neighbouring
doubles, or on one of them if `m` is even. -/
structure ReadsAs (z : ℚ) (m : Nat) (q : Int) : Prop where
  low : (m - marginBelow m q) * 2 ^ q ≤ z
  high : z ≤ (m + 1 / 2) * 2 ^ q
  even : z = (m - marginBelow m q) * 2 ^ q ∨ z = (m + 1 / 2) * 2 ^ q → m % 2 = 0

/-- The number is that of a double, but for the sign and an upper bound. -/
def Representable (v : ℚ) : Prop := ∃ (m : Nat) (e : Int), m < 2 ^ 53 ∧ -1074 ≤ e ∧ v = m * 2 ^ e

/-- The greatest double. -/
def greatest : ℚ := (2 ^ 53 - 1) * 2 ^ (971 : Int)

/-- The double is the number, rounded. -/
def Rounds (x : Float) (z : ℚ) : Prop :=
  ∃ r t, Nearest z r t ∧ x = .ofModel (Float.Model.pack (rounded .positive r t))

end MagicCircle.Double
