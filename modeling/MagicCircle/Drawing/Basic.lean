import MagicCircle.Arrangement
import MagicCircle.Drawing.Fault
import MagicCircle.Glyph.Source

/-!
# Drawing a diagram

A shape is drawn by entering its frame, stroking its border and its dividing line, and then drawing
each component inside its region. Every region has a frame of its own, which is left however the
drawing inside it ends, so a failure leaves the canvas in the frame it was given in.
-/

namespace MagicCircle

variable {α σ : Type}

/-- A drawing step: it works on a canvas and on the state of a source of glyphs, and may fail. -/
abbrev Draw (α σ : Type) := ExceptT (DrawError α) (StateM (Canvas α × σ))

namespace Draw

def onCanvas (f : Canvas α → Canvas α) : Draw α σ Unit :=
  modify fun s => (f s.1, s.2)

/-- Draws the stroke that `m` makes of the canvas; a refusal becomes the failure `fail` makes of
it. -/
def stroke (fail : Rejection → DrawError α) (m : Canvas α → Mark α) : Draw α σ Unit :=
  ExceptT.mk fun s =>
    match s.1.stroke (m s.1) with
    | .ok c => (.ok (), (c, s.2))
    | .error r => (.error (fail r), s)

def lookup (source : Source σ) (name : String) : Draw α σ Glyph :=
  ExceptT.mk fun s =>
    match source name s.2 with
    | (.ok g, t) => (.ok g, (s.1, t))
    | (.error e, t) => (.error (.leaf name e), (s.1, t))

/-- Runs a step in a frame of its own, which is left even when the step fails. -/
def inOwnFrame (step : Draw α σ Unit) : Draw α σ Unit :=
  ExceptT.mk fun s =>
    let (result, t) := step.run.run (s.1.save, s.2)
    (result, (t.1.restore, t.2))

end Draw

variable [Scalar α]

open Scalar (num)

/-- Turns the frame about the centre of the square of the given side. -/
def Canvas.rotateAboutCentre (c : Canvas α) (side angle : α) : Canvas α :=
  let centre := side / num 2
  ((c.translate centre centre).rotate angle).translate (-centre) (-centre)

namespace Shape

/-- Enters the frame of a shape of the given side: a spell's has its origin at the centre, a
triangle's is turned about the centre. -/
def enter (shape : Shape) (side : α) (c : Canvas α) : Canvas α :=
  match shape with
  | spell => c.translate (side / num 2) (side / num 2)
  | unit => c
  | triangle t => c.rotateAboutCentre side t.angle

/-- Enters the frame of a component's region: in a triangle it is turned back, so that the component
stands upright. -/
def enterRegion (shape : Shape) (region : Region α) (c : Canvas α) : Canvas α :=
  let c := c.translate region.corner.x region.corner.y
  match shape with
  | triangle t => c.rotateAboutCentre region.size (-t.angle)
  | _ => c

end Shape

/-- The stroke of a border. A circle is a whole turn. -/
def Border.mark : Border α → Mark α
  | circle center radius => .arc center radius (num 0) Scalar.turn
  | square corner side => .rect corner side side
  | triangle p q r => .polygon [p, q, r]

namespace Diagram

def drawRune (source : Source σ) (name : String) (side : α) : Draw α σ Unit := do
  let g ← Draw.lookup source name
  Draw.stroke (.glyph name) fun c => c.glyphMark g.strokes.length side

/-- Draws a diagram into the square of the given side, whose corner is the frame's origin. -/
def draw (source : Source σ) : Diagram → α → Draw α σ Unit
  | rune name, side => drawRune source name side
  | solo shape inner, side => do
    let plan := shape.solo side
    Draw.onCanvas (shape.enter side)
    Draw.stroke .surface fun _ => plan.border.mark
    Draw.inOwnFrame do
      Draw.onCanvas (shape.enterRegion plan.region)
      inner.draw source plan.region.size
  | pair shape first second, side => do
    let plan := shape.pair side
    Draw.onCanvas (shape.enter side)
    Draw.stroke .surface fun _ => plan.border.mark
    Draw.stroke .surface fun _ => .line plan.divider
    Draw.inOwnFrame do
      Draw.onCanvas (shape.enterRegion plan.first)
      first.draw source plan.first.size
    Draw.inOwnFrame do
      Draw.onCanvas (shape.enterRegion plan.second)
      second.draw source plan.second.size

/-- Draws a diagram in a frame of its own. A side that is no drawable length is refused before
anything is drawn. -/
def render (source : Source σ) (d : Diagram) (side : α) : Draw α σ Unit :=
  if Scalar.usable side then Draw.inOwnFrame (d.draw source side)
  else throw (.invalidSide side)

/-- Draws a diagram on a canvas; the result comes with the canvas and the source's state after
it. -/
def renderOn (source : Source σ) (d : Diagram) (side : α) (c : Canvas α) (s : σ) :
    Except (DrawError α) Unit × Canvas α × σ :=
  (d.render source side).run.run (c, s)

end Diagram

end MagicCircle
