import MagicCircle.Double.Basic
import MagicCircle.Glyph.Codec

/-!
# Glyphs that can be drawn

What a glyph has to be like so that it can be drawn, said of the numbers that its doubles stand for.
-/

namespace MagicCircle

/-- The double is a number from zero to one. -/
structure Double.InUnit (x : Float) : Prop where
  finite : x.isFinite = true
  nonneg : 0 ≤ Double.value x
  le_one : Double.value x ≤ 1

/-- The point lies in the unit square. -/
structure Point.InUnitSquare (p : Point Float) : Prop where
  x : Double.InUnit p.x
  y : Double.InUnit p.y

/-- The stroke has points, and all of them lie in the unit square. -/
structure Glyph.DrawableStroke (stroke : List (Point Float)) : Prop where
  nonempty : stroke ≠ []
  inside : ∀ p ∈ stroke, p.InUnitSquare

/-- There are strokes, and all of them can be drawn. -/
structure Glyph.Drawable (g : Glyph) : Prop where
  nonempty : g.strokes ≠ []
  strokes : ∀ stroke ∈ g.strokes, DrawableStroke stroke

namespace Glyph

/-- What is wrong with a list of strokes: there are none, or the first that cannot be drawn is empty
or has a point outside the unit square. -/
inductive Flawed : List (List (Point Float)) → Flaw → Prop
  | noStrokes : Flawed [] .noStrokes
  | emptyStroke {before after : List (List (Point Float))} :
      (∀ s ∈ before, DrawableStroke s) → Flawed (before ++ [] :: after) .emptyStroke
  | outsideUnitSquare {before after : List (List (Point Float))} {stroke : List (Point Float)}
      {p : Point Float} :
      (∀ s ∈ before, DrawableStroke s) → p ∈ stroke → ¬ p.InUnitSquare →
        Flawed (before ++ stroke :: after) .outsideUnitSquare

end Glyph

end MagicCircle
