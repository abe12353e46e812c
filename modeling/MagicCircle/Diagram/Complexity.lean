import MagicCircle.Diagram.Basic

/-!
# Complexity

The complexity of a shape is one more than its most complex component's, or the binary logarithm of
the number of components after the first if that is larger. It is measured in any arithmetic in
which the logarithm of zero lies below every number.
-/

namespace MagicCircle

/-- The arithmetic that complexity is measured in. -/
class Gauge (α : Type) extends Add α, Sub α, Max α where
  num : Nat → α
  /-- The binary logarithm; that of zero is below every number. -/
  log2 : α → α

-- As for scalars, operations that do not come from the class go first.
attribute [instance (low)] Gauge.toAdd Gauge.toSub Gauge.toMax

instance : Gauge Float where
  max x y := if x < y then y else x
  num := Float.ofNat
  log2 := Float.log2

namespace Diagram

variable {α : Type} [Gauge α]

/-- The complexity of a shape with `count` components, the most complex of which has complexity
`deepest`. -/
def complexityAround (deepest : α) (count : Nat) : α :=
  max (deepest + Gauge.num 1) (Gauge.log2 (Gauge.num count - Gauge.num 1))

/-- How deeply composed a diagram is. -/
def complexity : Diagram → α
  | rune _ => Gauge.num 0
  | solo _ d => complexityAround d.complexity 1
  | pair _ d e => complexityAround (max d.complexity e.complexity) 2

end Diagram

end MagicCircle
