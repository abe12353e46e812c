import MagicCircle.Diagram.Shape
import MagicCircle.Report

/-!
# Diagrams

A diagram is a rune, or a shape around one or two diagrams. Other numbers of components are refused
when a group is formed, so no diagram holds them.
-/

namespace MagicCircle

inductive Diagram
  /-- A named primitive, drawn by its glyph. -/
  | rune (name : String)
  | solo (shape : Shape) (inner : Diagram)
  | pair (shape : Shape) (first second : Diagram)
  deriving DecidableEq, Repr

/-- A number of components that no shape can hold. -/
inductive StructureError
  | noComponents (shape : Shape)
  | tooManyComponents (shape : Shape) (count : Nat)
  deriving DecidableEq, Repr

instance : Reportable StructureError where
  code
    | .noComponents _ => "E_NO_COMPONENTS"
    | .tooManyComponents _ _ => "E_TOO_MANY_COMPONENTS"
  message
    | .noComponents shape => shape.name ++ " needs at least one component"
    | .tooManyComponents shape count =>
      shape.name ++ " supports only up to 2 components, got " ++ toString count

namespace Diagram

/-- The shape around the given components, of which there must be one or two. -/
def group (shape : Shape) : List Diagram → Except StructureError Diagram
  | [] => .error (.noComponents shape)
  | [d] => .ok (.solo shape d)
  | [d, e] => .ok (.pair shape d e)
  | ds => .error (.tooManyComponents shape ds.length)

def shape? : Diagram → Option Shape
  | rune _ => none
  | solo s _ => some s
  | pair s _ _ => some s

def children : Diagram → List Diagram
  | rune _ => []
  | solo _ d => [d]
  | pair _ d e => [d, e]

/-- The names of the diagram's runes, from left to right. -/
def leaves : Diagram → List String
  | rune name => [name]
  | solo _ d => d.leaves
  | pair _ d e => d.leaves ++ e.leaves

/-- How many shapes stand around each of the diagram's runes, from left to right. -/
def leafDepths : Diagram → List Nat
  | rune _ => [0]
  | solo _ d => d.leafDepths.map (· + 1)
  | pair _ d e => (d.leafDepths ++ e.leafDepths).map (· + 1)

/-- The diagram and all diagrams in it, each before its components and with the number of shapes
around it, which is `depth` for the diagram itself. -/
def preorder (depth : Nat) : Diagram → List (Nat × Diagram)
  | rune name => [(depth, rune name)]
  | solo s d => (depth, solo s d) :: d.preorder (depth + 1)
  | pair s d e => (depth, pair s d e) :: (d.preorder (depth + 1) ++ e.preorder (depth + 1))

/-- The largest number of shapes around one of the diagram's runes. -/
def height : Diagram → Nat
  | rune _ => 0
  | solo _ d => d.height + 1
  | pair _ d e => max d.height e.height + 1

end Diagram

end MagicCircle
