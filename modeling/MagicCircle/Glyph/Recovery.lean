import MagicCircle.Glyph.Drawable

/-!
# Glyphs that come back from their text

A reader of numbers that rounds more than once need not give back the double that was written. What it
gives back is near that double, is in the unit interval with it, and is the double itself if the
numeral is short.
-/

namespace MagicCircle

/-- The digits of the numeral are a whole number that a double stands for, and so is the power of ten
that they are divided by. -/
structure Decimal.Numeral.Short (n : Numeral) : Prop where
  digits : n.scaled.1 ≤ 2 ^ 53
  places : -22 ≤ n.scaled.2

/-- What a coordinate may come back as. -/
structure Double.Recovered (x y : Float) : Prop where
  inUnit : InUnit y
  near : |value y - value x| ≤ value x / 2 ^ 50 + 2 * tiny
  same : ∀ n, Json.style.numeral? x = some n → n.Short → y = x

structure Point.Recovered (p p' : Point Float) : Prop where
  x : Double.Recovered p.x p'.x
  y : Double.Recovered p.y p'.y

/-- The glyph has as many strokes as the other, of as many points each, and these are recovered. -/
def Glyph.Recovered (g g' : Glyph) : Prop :=
  List.Forall₂ (List.Forall₂ Point.Recovered) g.strokes g'.strokes

end MagicCircle
