import MagicCircle.Scalar

/-!
# Points and segments
-/

namespace MagicCircle

@[ext]
structure Point (α : Type) where
  x : α
  y : α
  deriving DecidableEq, Repr

@[ext]
structure Segment (α : Type) where
  start : Point α
  finish : Point α
  deriving DecidableEq, Repr

/-- The point both of whose coordinates are zero. -/
def Point.origin {α : Type} [Scalar α] : Point α := ⟨Scalar.num 0, Scalar.num 0⟩

end MagicCircle
