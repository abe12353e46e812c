import MagicCircle.Plane.Point

/-!
# Frames

A frame is an affine map from its own coordinates to those of the canvas. Moving and turning
compose on the right, so they act inside the frame they are applied to.
-/

namespace MagicCircle

/-- The map that sends `(x, y)` to `(a x + c y + e, b x + d y + f)`. -/
@[ext]
structure Frame (α : Type) where
  a : α
  b : α
  c : α
  d : α
  e : α
  f : α
  deriving DecidableEq, Repr

namespace Frame

variable {α : Type} [Scalar α]

open Scalar (num)

def identity : Frame α := ⟨num 1, num 0, num 0, num 1, num 0, num 0⟩

/-- The frame whose origin stands at `(x, y)`. -/
def translation (x y : α) : Frame α := ⟨num 1, num 0, num 0, num 1, x, y⟩

/-- The frame turned about the origin by an angle in radians. -/
def rotation (radians : α) : Frame α :=
  let s := Scalar.sin radians
  let c := Scalar.cos radians
  ⟨c, s, -s, c, num 0, num 0⟩

/-- The frame `inner` as it stands inside the frame `outer`. -/
def comp (outer inner : Frame α) : Frame α where
  a := outer.a * inner.a + outer.c * inner.b
  b := outer.b * inner.a + outer.d * inner.b
  c := outer.a * inner.c + outer.c * inner.d
  d := outer.b * inner.c + outer.d * inner.d
  e := outer.a * inner.e + outer.c * inner.f + outer.e
  f := outer.b * inner.e + outer.d * inner.f + outer.f

/-- The frame moved by `(x, y)` along its own axes. -/
def translate (t : Frame α) (x y : α) : Frame α := t.comp (translation x y)

/-- The frame turned about its own origin. -/
def rotate (t : Frame α) (radians : α) : Frame α := t.comp (rotation radians)

/-- Where a point of the frame lies on the canvas. -/
def apply (t : Frame α) (p : Point α) : Point α :=
  ⟨t.a * p.x + t.c * p.y + t.e, t.b * p.x + t.d * p.y + t.f⟩

def angle (t : Frame α) : α := Scalar.atan2 t.b t.a

end Frame

end MagicCircle
