/-!
# Scalars

Lengths, coordinates and angles are numbers of one type `α`. Everything that draws is written once
over the class `Scalar α`, in the order in which its operations are to be carried out, so that the
same formulas run on binary64 numbers and can be read as exact arithmetic.
-/

namespace MagicCircle

class Scalar (α : Type) extends Add α, Sub α, Mul α, Div α, Neg α where
  num : Nat → α
  /-- One tenth, the part of the space available to a region that stays free on each side. -/
  margin : α
  /-- Four fifths, the part of the space available to a region that the region fills. -/
  fill : α
  halfTurn : α
  cosEighth : α
  sinEighth : α
  sqrt : α → α
  sin : α → α
  cos : α → α
  /-- The angle at the origin of the point whose second and first coordinates are given. -/
  atan2 : α → α → α
  /-- Whether a length can be drawn: it is finite and greater than zero. -/
  usable : α → Bool

-- Numbers that have operations without the class are to be added and multiplied by those.
attribute [instance (low)] Scalar.toAdd Scalar.toSub Scalar.toMul Scalar.toDiv Scalar.toNeg

namespace Scalar

variable {α : Type} [Scalar α]

def turn : α := num 2 * halfTurn

def quarterTurn : α := halfTurn / num 2

end Scalar

/-- Binary64 arithmetic, each operation rounded. The two values at an eighth of a turn are the
nearest doubles to the cosine and the sine of the double nearest to that angle. -/
instance : Scalar Float where
  num := Float.ofNat
  margin := 0.1
  fill := 0.8
  halfTurn := Float.ofBits 0x400921fb54442d18
  cosEighth := Float.ofBits 0x3fe6a09e667f3bcd
  sinEighth := Float.ofBits 0x3fe6a09e667f3bcc
  sqrt := Float.sqrt
  sin := Float.sin
  cos := Float.cos
  atan2 := Float.atan2
  usable x := x.isFinite && decide (0 < x)

end MagicCircle
