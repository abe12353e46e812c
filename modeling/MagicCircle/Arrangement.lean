import MagicCircle.Diagram.Basic
import MagicCircle.Plane.Frame

/-!
# Arrangements

How a shape of a given side is drawn in its own frame: the border around it, the line that divides
two components, and the square region that each component is drawn into. A spell's frame has its
origin at the centre of the square, all others have it at a corner; a triangle's frame is the one
before it is turned.
-/

namespace MagicCircle

inductive Border (α : Type)
  | circle (center : Point α) (radius : α)
  | square (corner : Point α) (side : α)
  | triangle (p q r : Point α)
  deriving DecidableEq, Repr

/-- A square that a component is drawn into. -/
structure Region (α : Type) where
  corner : Point α
  size : α
  deriving DecidableEq, Repr

structure SoloPlan (α : Type) where
  border : Border α
  region : Region α
  deriving DecidableEq, Repr

structure PairPlan (α : Type) where
  border : Border α
  divider : Segment α
  first : Region α
  second : Region α
  deriving DecidableEq, Repr

/-- What is drawn of a diagram itself, and where its components go, in order. A rune has neither
border nor regions. -/
structure Arrangement (α : Type) where
  border : Option (Border α) := none
  dividers : List (Segment α) := []
  regions : List (Region α) := []
  deriving DecidableEq, Repr

def SoloPlan.arrangement {α : Type} (p : SoloPlan α) : Arrangement α where
  border := some p.border
  regions := [p.region]

def PairPlan.arrangement {α : Type} (p : PairPlan α) : Arrangement α where
  border := some p.border
  dividers := [p.divider]
  regions := [p.first, p.second]

variable {α : Type} [Scalar α]

open Scalar (num margin fill)

/-- The region left when a square of the given width at `(x, y)` keeps its margins free. -/
def Region.inset (x y width : α) : Region α :=
  ⟨⟨x + width * margin, y + width * margin⟩, width * fill⟩

namespace Shape

def border (side : α) : Shape → Border α
  | spell => .circle Point.origin (side / num 2)
  | unit => .square Point.origin side
  | triangle _ => .triangle ⟨num 0, num 0⟩ ⟨side, num 0⟩ ⟨side / num 2, side⟩

/-- The region of a spell's only component: the square inside its circle, less its margins. -/
def spellRegion (side : α) : Region α :=
  let radius := side / num 2
  let width := Scalar.cosEighth * radius * num 2
  let offset := -(width / num 2 - width * margin)
  ⟨⟨offset, offset⟩, width * fill⟩

/-- The region of a triangle's only component: the square that stands on its upper side, less its
margins. -/
def triangleRegion (side : α) : Region α :=
  let root := Scalar.sqrt (num 3)
  let width := side * (num 1 - root / (root + num 2))
  let left := side * root / (num 2 * root + num 4)
  ⟨⟨left + width * margin, width * margin⟩, width * fill⟩

def solo (shape : Shape) (side : α) : SoloPlan α where
  border := shape.border side
  region := match shape with
    | spell => spellRegion side
    | unit => Region.inset (num 0) (num 0) side
    | triangle _ => triangleRegion side

/-- The plan of a spell with two components: the divider is a diameter, the regions lie on the other
diagonal. -/
def spellPair (side : α) : PairPlan α :=
  let radius := side / num 2
  let cos : α := Scalar.cosEighth
  let sin : α := Scalar.sinEighth
  let width := cos * radius
  let first := -(width - width * margin)
  let second := width * margin
  { border := spell.border side
    divider := ⟨⟨cos * radius, (-sin) * radius⟩, ⟨(-cos) * radius, sin * radius⟩⟩
    first := ⟨⟨first, first⟩, width * fill⟩
    second := ⟨⟨second, second⟩, width * fill⟩ }

/-- The plan of a unit with two components, which lie on the diagonal that does not divide it. -/
def unitPair (side : α) : PairPlan α :=
  let half := side / num 2
  { border := unit.border side
    divider := ⟨⟨num 0, side⟩, ⟨side, num 0⟩⟩
    first := Region.inset (num 0) (num 0) half
    second := Region.inset half half half }

/-- The plan of a triangle with two components, which lie on both sides of its axis. -/
def trianglePair (t : Triangle) (side : α) : PairPlan α :=
  let height := side
  let width := side / num 2 - (side * height) / (num 2 * side + num 4 * height)
  let middle := side / num 2
  { border := (triangle t).border side
    divider := ⟨⟨middle, num 0⟩, ⟨middle, side⟩⟩
    first := ⟨⟨middle - width * (num 1 - margin), width * margin⟩, width * fill⟩
    second := ⟨⟨middle + width * margin, width * margin⟩, width * fill⟩ }

def pair (shape : Shape) (side : α) : PairPlan α :=
  match shape with
  | spell => spellPair side
  | unit => unitPair side
  | triangle t => trianglePair t side

/-- A divider and a second component leave the border as it is. -/
theorem border_pair (shape : Shape) (side : α) :
    (shape.pair side).border = shape.border side := by
  rcases shape <;> rfl

/-- The arrangement of a shape around `count` components. -/
def arrange (shape : Shape) (count : Nat) (side : α) : Except StructureError (Arrangement α) :=
  match count with
  | 0 => .error (.noComponents shape)
  | 1 => .ok (shape.solo side).arrangement
  | 2 => .ok (shape.pair side).arrangement
  | n => .error (.tooManyComponents shape n)

end Shape

def Diagram.arrangement (side : α) : Diagram → Arrangement α
  | .rune _ => {}
  | .solo shape _ => (shape.solo side).arrangement
  | .pair shape _ _ => (shape.pair side).arrangement

end MagicCircle
