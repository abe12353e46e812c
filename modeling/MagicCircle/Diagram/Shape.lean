import MagicCircle.Scalar

/-!
# Shapes

The closed set of figures that hold components. The three triangles differ in the way they are
turned, and each is written with a mark of its own.
-/

namespace MagicCircle

inductive Triangle
  | target
  | duration
  | restriction
  deriving DecidableEq, Repr

inductive Shape
  /-- A circle. -/
  | spell
  /-- A square. -/
  | unit
  | triangle (t : Triangle)
  deriving DecidableEq, Repr

namespace Triangle

/-- How far the triangle's frame is turned, in radians: a target not at all, a duration by half a
turn, a restriction by a quarter of a turn backwards. -/
def angle {α : Type} [Scalar α] : Triangle → α
  | target => Scalar.num 0
  | duration => Scalar.halfTurn
  | restriction => -Scalar.quarterTurn

def ofMark? : List Char → Option Triangle
  | ['T'] => some target
  | ['D'] => some duration
  | ['R'] => some restriction
  | _ => none

end Triangle

namespace Shape

def name : Shape → String
  | spell => "spell"
  | unit => "unit"
  | triangle .target => "target"
  | triangle .duration => "duration"
  | triangle .restriction => "restriction"

def ofName? : String → Option Shape
  | "spell" => some spell
  | "unit" => some unit
  | "target" => some (triangle .target)
  | "duration" => some (triangle .duration)
  | "restriction" => some (triangle .restriction)
  | _ => none

/-- How far a triangle's frame is turned; other shapes are never turned. -/
def angle? {α : Type} [Scalar α] : Shape → Option α
  | triangle t => some t.angle
  | _ => none

def isTriangle : Shape → Bool
  | triangle _ => true
  | _ => false

end Shape

end MagicCircle
