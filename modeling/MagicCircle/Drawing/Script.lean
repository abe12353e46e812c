import MagicCircle.Canvas.Replay
import MagicCircle.Drawing.Basic
import MagicCircle.Drawing.Events

/-!
# Drawing by a script

A script is all that a drawing does, laid out before any of it is done. It depends on the diagram
and the side alone. Performing it stops at the first action that fails, and then leaves the frames
that the script has entered and not left.
-/

namespace MagicCircle

variable {α σ : Type}

inductive Action (α : Type)
  | save
  | restore
  | translate (x y : α)
  | rotate (radians : α)
  | border (b : Border α)
  | divider (line : Segment α)
  /-- Looks up the glyph of a name and draws it into a square of the given size. -/
  | rune (name : String) (size : α)
  deriving DecidableEq, Repr

namespace Action

/-- How many of a script's frames are open after the action, where `n` were before it. -/
def depth (n : Nat) : Action α → Nat
  | save => n + 1
  | restore => n - 1
  | _ => n

/-- What of the action may fail, in order. -/
def events : Action α → List Event
  | border _ => [.border]
  | divider _ => [.divider]
  | rune name _ => [.lookup name, .glyph name]
  | _ => []

/-- Actions in a frame of their own. -/
def framed (as : List (Action α)) : List (Action α) := .save :: (as ++ [.restore])

variable [Scalar α]

open Scalar (num)

/-- Turns the frame about the centre of the square of the given side. -/
def rotateAboutCentre (side angle : α) : List (Action α) :=
  let centre := side / num 2
  [.translate centre centre, .rotate angle, .translate (-centre) (-centre)]

def draw (source : Source σ) : Action α → Draw α σ Unit
  | save => Draw.onCanvas Canvas.save
  | restore => Draw.onCanvas Canvas.restore
  | translate x y => Draw.onCanvas fun c => c.translate x y
  | rotate radians => Draw.onCanvas fun c => c.rotate radians
  | border b => Draw.stroke .surface fun _ => b.mark
  | divider line => Draw.stroke .surface fun _ => .line line
  | rune name size => Diagram.drawRune source name size

/-- What the action adds to the log of a canvas, with the glyphs of all names at hand. -/
def op (glyph : String → Glyph) (c : Canvas α) : Action α → Op α
  | save => .save
  | restore => .restore
  | translate x y => .translate x y
  | rotate radians => .rotate radians
  | border b => .mark b.mark
  | divider line => .mark (.line line)
  | rune name size => .mark (c.glyphMark (glyph name).strokes.length size)

/-- The canvas after the action, if nothing of it fails. -/
def apply (glyph : String → Glyph) (c : Canvas α) (a : Action α) : Canvas α :=
  c.apply (a.op glyph c)

/-- What actions add to the log of a canvas, if nothing of them fails. -/
def ops (glyph : String → Glyph) (c : Canvas α) : List (Action α) → List (Op α)
  | [] => []
  | a :: as => a.op glyph c :: ops glyph (a.apply glyph c) as

end Action

def Canvas.restores : Nat → Canvas α → Canvas α
  | 0, c => c
  | n + 1, c => c.restore.restores n

namespace Draw

/-- Runs a step; if it fails, goes back by `n` saved frames. -/
def leaving (n : Nat) (step : Draw α σ Unit) : Draw α σ Unit :=
  ExceptT.mk fun s =>
    match step.run.run s with
    | (.ok (), t) => (.ok (), t)
    | (.error e, t) => (.error e, (t.1.restores n, t.2))

/-- Takes actions one after the other, where `n` of their frames are open already. -/
def perform [Scalar α] (source : Source σ) : Nat → List (Action α) → Draw α σ Unit
  | _, [] => pure ()
  | n, a :: as => do
    leaving n (a.draw source)
    perform source (a.depth n) as

end Draw

variable [Scalar α]

open Scalar (num)

namespace Shape

def entering (shape : Shape) (side : α) : List (Action α) :=
  match shape with
  | spell => [.translate (side / num 2) (side / num 2)]
  | unit => []
  | triangle t => Action.rotateAboutCentre side t.angle

def enteringRegion (shape : Shape) (region : Region α) : List (Action α) :=
  .translate region.corner.x region.corner.y ::
    match shape with
    | triangle t => Action.rotateAboutCentre region.size (-t.angle)
    | _ => []

end Shape

namespace Diagram

/-- What is done to draw a diagram into the square of the given side. -/
def script : Diagram → α → List (Action α)
  | rune name, side => [.rune name side]
  | solo shape inner, side =>
    let plan := shape.solo side
    shape.entering side ++ .border plan.border ::
      Action.framed (shape.enteringRegion plan.region ++ inner.script plan.region.size)
  | pair shape first second, side =>
    let plan := shape.pair side
    shape.entering side ++ .border plan.border :: .divider plan.divider ::
      (Action.framed (shape.enteringRegion plan.first ++ first.script plan.first.size) ++
        Action.framed (shape.enteringRegion plan.second ++ second.script plan.second.size))

end Diagram

end MagicCircle
