import MagicCircle.Plane.Frame
import MagicCircle.Report

/-!
# The recording canvas

A canvas has a current frame and a stack of saved ones. It keeps a log of what it was asked to do,
and may be told to refuse all strokes after a number of them. A refused stroke leaves no trace.
-/

namespace MagicCircle

/-- A stroke in the coordinates of the current frame. -/
inductive Mark (α : Type)
  | arc (center : Point α) (radius start finish : α)
  | line (segment : Segment α)
  | rect (corner : Point α) (width height : α)
  | polygon (points : List (Point α))
  /-- A glyph of so many strokes in the square of the given size at the frame's origin, which lies
  at `place` on the canvas and is turned by `turned`. -/
  | glyph (strokes : Nat) (size : α) (place : Point α) (turned : α)
  deriving DecidableEq, Repr

inductive Op (α : Type)
  | save
  | restore
  | translate (x y : α)
  | rotate (radians : α)
  | mark (m : Mark α)
  deriving DecidableEq, Repr

structure Canvas (α : Type) where
  ops : Array (Op α)
  frame : Frame α
  /-- The saved frames, the last one first. -/
  saved : List (Frame α)
  /-- How many strokes the canvas takes; none refused if not given. -/
  limit : Option Nat
  strokes : Nat

structure Rejection where
  text : String
  deriving DecidableEq, Repr

def Rejection.message (r : Rejection) : String := "surface error: " ++ r.text

namespace Canvas

variable {α : Type}

def depth (c : Canvas α) : Nat := c.saved.length

def isBalanced (c : Canvas α) : Bool := c.saved.isEmpty

def record (c : Canvas α) (op : Op α) : Canvas α := { c with ops := c.ops.push op }

def save (c : Canvas α) : Canvas α :=
  { c.record .save with saved := c.frame :: c.saved }

/-- Goes back to the frame saved last; without one the frame stays. -/
def restore (c : Canvas α) : Canvas α :=
  match c.saved with
  | [] => c.record .restore
  | frame :: saved => { c.record .restore with frame, saved }

def accepts (c : Canvas α) : Bool :=
  match c.limit with
  | none => true
  | some limit => c.strokes < limit

def stroke (c : Canvas α) (m : Mark α) : Except Rejection (Canvas α) :=
  if c.accepts then .ok { c.record (.mark m) with strokes := c.strokes + 1 }
  else .error ⟨"stroke " ++ toString (c.strokes + 1) ++ " rejected"⟩

variable [Scalar α]

def blank (limit : Option Nat) : Canvas α := ⟨#[], Frame.identity, [], limit, 0⟩

def translate (c : Canvas α) (x y : α) : Canvas α :=
  { c.record (.translate x y) with frame := c.frame.translate x y }

def rotate (c : Canvas α) (radians : α) : Canvas α :=
  { c.record (.rotate radians) with frame := c.frame.rotate radians }

/-- A glyph of so many strokes at the origin of the current frame. -/
def glyphMark (c : Canvas α) (strokes : Nat) (size : α) : Mark α :=
  .glyph strokes size (c.frame.apply Point.origin) c.frame.angle

end Canvas

end MagicCircle
