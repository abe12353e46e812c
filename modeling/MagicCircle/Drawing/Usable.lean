import MagicCircle.Double.Band
import MagicCircle.Drawing.Basic

/-!
# Usable drawings

A log on doubles is of use if all numbers in it are finite and all lengths of its strokes are greater
than zero. Sines, cosines and angles come from a library, of which no more is known than what it
promises (`Trigonometry.Sound`).
-/

namespace MagicCircle

open Double (value)

variable {α σ : Type}

def Point.numbers (p : Point α) : List α := [p.x, p.y]

namespace Mark

def numbers : Mark α → List α
  | arc center radius start finish => center.numbers ++ [radius, start, finish]
  | line segment => segment.start.numbers ++ segment.finish.numbers
  | rect corner width height => corner.numbers ++ [width, height]
  | polygon points => points.flatMap Point.numbers
  | glyph _ size place turned => size :: (place.numbers ++ [turned])

/-- The lengths that a stroke is drawn with. -/
def lengths : Mark α → List α
  | arc _ radius _ _ => [radius]
  | rect _ width height => [width, height]
  | glyph _ size _ _ => [size]
  | _ => []

end Mark

namespace Op

def numbers : Op α → List α
  | translate x y => [x, y]
  | rotate radians => [radians]
  | mark m => m.numbers
  | _ => []

def lengths : Op α → List α
  | mark m => m.lengths
  | _ => []

/-- The entry can be drawn, and nothing in it is larger than the side. -/
structure Usable (side : Float) (op : Op Float) : Prop where
  finite : ∀ x ∈ op.numbers, x.isFinite = true
  lengths : ∀ x ∈ op.lengths, 0 < x ∧ x ≤ side

end Op

/-- The functions that a library has for angles. -/
structure Trigonometry where
  sin : Float → Float
  cos : Float → Float
  atan2 : Float → Float → Float

namespace Trigonometry

/-- The one that doubles come with. -/
def standard : Trigonometry := ⟨Float.sin, Float.cos, Float.atan2⟩

@[reducible]
def scalar (t : Trigonometry) : Scalar Float :=
  { (inferInstance : Scalar Float) with sin := t.sin, cos := t.cos, atan2 := t.atan2 }

/-- At the angles by which frames are turned, all of them quarter turns, one of sine and cosine is
about one and the other about zero. An angle is finite. -/
structure Sound (t : Trigonometry) : Prop where
  sin_finite (shape : Triangle) : ∀ x ∈ [shape.angle, -shape.angle], (t.sin x).isFinite = true
  cos_finite (shape : Triangle) : ∀ x ∈ [shape.angle, -shape.angle], (t.cos x).isFinite = true
  unit (shape : Triangle) : ∀ x ∈ [shape.angle, -shape.angle],
    |value (t.sin x)| + |value (t.cos x)| ≤ 1 + 1 / 2 ^ 40
  atan2_finite {y x : Float} : y.isFinite = true → x.isFinite = true →
    (t.atan2 y x).isFinite = true

/-- The sines and cosines of quarter turns, rounded, and the angle of a frame that stands upright. -/
def quarterTurns : Trigonometry where
  sin x :=
    if x == Scalar.halfTurn then .ofBits 0x3ca1a62633145c07
    else if x == -Scalar.halfTurn then .ofBits 0xbca1a62633145c07
    else if x == Scalar.quarterTurn then 1
    else if x == -Scalar.quarterTurn then -1
    else x
  cos x :=
    if x == Scalar.halfTurn || x == -Scalar.halfTurn then -1
    else if x == Scalar.quarterTurn || x == -Scalar.quarterTurn then .ofBits 0x3c91a62633145c07
    else 1
  atan2 _ _ := 0

end Trigonometry

namespace Diagram

/-- Draws on a blank canvas with the given functions for angles. -/
def renderWith (t : Trigonometry) (source : Source σ) (d : Diagram) (side : Float)
    (limit : Option Nat) (s : σ) : Except (DrawError Float) Unit × Canvas Float × σ :=
  letI := t.scalar
  d.renderOn source side (.blank limit) s

theorem renderWith_standard (source : Source σ) (d : Diagram) (side : Float) (limit : Option Nat)
    (s : σ) : d.renderWith .standard source side limit s = d.renderOn source side (.blank limit) s :=
  rfl

/-- The side is far from the ends of the range of doubles, and so are its square and the square of the
smallest part of the diagram. -/
structure InRange (d : Diagram) (side : Float) : Prop where
  finite : side.isFinite = true
  least : 4 ^ d.height * 2 ^ (-500 : Int) ≤ value side
  most : value side ≤ 2 ^ (500 : Int)

end Diagram

end MagicCircle
