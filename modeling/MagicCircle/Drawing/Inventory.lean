import MagicCircle.Drawing.Failure
import MagicCircle.Drawing.Script

/-!
# What a drawing consists of

The entries of a log by their kind, whatever their measures, and the share that each diagram inside
a diagram has in them. `Draw.around` draws a shape around any number of parts, as far as there is an
arrangement for that number.
-/

namespace MagicCircle

variable {α σ : Type}

/-- The figures that borders have. -/
inductive Figure
  | circle
  | square
  | triangle
  deriving DecidableEq, Repr

/-- What an entry of a log is, without its measures. -/
inductive Kind
  | save
  | restore
  | translate
  | rotate
  | border (f : Figure)
  | divider
  | glyph
  deriving DecidableEq, Repr

def Kind.figure? : Kind → Option Figure
  | border f => some f
  | _ => none

def Mark.kind : Mark α → Kind
  | arc .. => .border .circle
  | line _ => .divider
  | rect .. => .border .square
  | polygon _ => .border .triangle
  | glyph .. => .glyph

namespace Op

def kind : Op α → Kind
  | save => .save
  | restore => .restore
  | translate .. => .translate
  | rotate _ => .rotate
  | mark m => m.kind

/-- How many strokes the glyph has that the entry tells of. -/
def glyphStrokes? : Op α → Option Nat
  | mark (.glyph strokes ..) => some strokes
  | _ => none

end Op

def Border.figure : Border α → Figure
  | circle .. => .circle
  | square .. => .square
  | triangle .. => .triangle

/-- The kind of the entry that an action adds to the log. -/
def Action.kind : Action α → Kind
  | save => .save
  | restore => .restore
  | translate .. => .translate
  | rotate _ => .rotate
  | border b => .border b.figure
  | divider _ => .divider
  | rune .. => .glyph

namespace Shape

def figure : Shape → Figure
  | spell => .circle
  | unit => .square
  | triangle _ => .triangle

/-- How the frame of a shape is entered. -/
def turnIn : Shape → List Kind
  | spell => [.translate]
  | unit => []
  | triangle _ => [.translate, .rotate, .translate]

/-- How the frame of a component's region is entered. -/
def turnBack : Shape → List Kind
  | triangle _ => [.translate, .translate, .rotate, .translate]
  | _ => [.translate]

end Shape

namespace Diagram

/-- The diagram and all diagrams in it, each before its components. -/
def nodes (d : Diagram) : List Diagram := (d.preorder 0).map Prod.snd

def isTurned (d : Diagram) : Bool := d.shape?.any Shape.isTriangle

/-- What a diagram adds to the log itself, in the frame of its own; its components come on top. -/
def share : Diagram → List Kind
  | rune _ => [.save, .glyph, .restore]
  | solo shape _ => .save :: shape.turnIn ++ .border shape.figure :: shape.turnBack ++ [.restore]
  | pair shape _ _ => .save :: shape.turnIn ++ .border shape.figure :: .divider ::
      (shape.turnBack ++ shape.turnBack) ++ [.restore]

/-- The entries of a log are those of one drawing of the diagram, as far as their kinds tell: the
shares of all the diagrams in it and nothing else. So there are the borders of its shapes in order, a
divider for two components, a frame for each diagram in it, and a turn for each triangle and for
each of its components. -/
structure DrawnOnce (d : Diagram) (kinds : List Kind) : Prop where
  perm : kinds.Perm (d.nodes.flatMap share)
  borders : kinds.filterMap Kind.figure? = d.nodes.filterMap fun e => e.shape?.map Shape.figure
  dividers : kinds.count .divider = (d.nodes.filter fun e => e.children.length = 2).length
  saves : kinds.count .save = d.nodes.length
  restores : kinds.count .restore = d.nodes.length
  rotates : kinds.count .rotate =
    (d.nodes.filter isTurned).length + ((d.nodes.filter isTurned).flatMap children).length

end Diagram

/-- The canvas takes so many strokes more. -/
def Canvas.HasRoom (c : Canvas α) (strokes : Nat) : Prop := ∀ k, c.left = some k → strokes ≤ k

/-- Draws a shape around parts by the arrangement for their number. Each part is drawn into the next
of the regions; a part without a region would be left out, as would a region without a part. -/
def Draw.around [Scalar α] (shape : Shape) (parts : List (α → Draw α σ Unit)) (side : α) :
    Except StructureError (Draw α σ Unit) := do
  let plan ← shape.arrange parts.length side
  return do
    onCanvas (shape.enter side)
    plan.border.toList.forM fun b => stroke .surface fun _ => b.mark
    plan.dividers.forM fun line => stroke .surface fun _ => .line line
    (parts.zip plan.regions).forM fun p => inOwnFrame do
      onCanvas (shape.enterRegion p.2)
      p.1 p.2.size

end MagicCircle
