import MagicCircle.Double.Basic

/-!
# Bounds on doubles

A double is bounded by multiples of a scale, so that the same bounds hold of a length whatever its
unit.
-/

namespace MagicCircle.Double

/-- A unit that is far from the ends of the range. -/
structure Scale (k : ℚ) : Prop where
  least : 2 ^ (-1000 : Int) ≤ k
  most : k ≤ 2 ^ (1000 : Int)

/-- The double is finite and lies between two multiples of a scale. -/
structure Band (k lo hi : ℚ) (x : Float) : Prop where
  finite : x.isFinite = true
  low : lo * k ≤ value x
  high : value x ≤ hi * k

/-- Room for the rounding of one operation, as a part of the scale. -/
def slack : ℚ := 1 / 2 ^ 30

/-- What lies between `a` and `b` lies between `lo` and `hi` when it has been rounded. -/
structure Within (a b lo hi : ℚ) : Prop where
  least : -2 ^ 20 ≤ lo
  most : hi ≤ 2 ^ 20
  low : lo + slack ≤ a
  high : b + slack ≤ hi

instance (a b lo hi : ℚ) : Decidable (Within a b lo hi) :=
  decidable_of_iff (-2 ^ 20 ≤ lo ∧ hi ≤ 2 ^ 20 ∧ lo + slack ≤ a ∧ b + slack ≤ hi)
    ⟨fun ⟨hleast, hmost, hlow, hhigh⟩ => ⟨hleast, hmost, hlow, hhigh⟩,
      fun h => ⟨h.least, h.most, h.low, h.high⟩⟩

/-- The length and its square are far from the ends of the range. -/
structure Moderate (x : Float) : Prop where
  finite : x.isFinite = true
  least : 2 ^ (-500 : Int) ≤ value x
  most : value x ≤ 2 ^ (500 : Int)

end MagicCircle.Double
