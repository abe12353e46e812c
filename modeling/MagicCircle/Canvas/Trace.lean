import MagicCircle.Canvas.Replay

/-!
# The strokes of a log

A log tells of every stroke in which frame it was made, and so where on the canvas it lies.
-/

namespace MagicCircle

variable {α : Type}

def Op.mark? : Op α → Option (Mark α)
  | mark m => some m
  | _ => none

def Mark.isGlyph : Mark α → Bool
  | glyph .. => true
  | _ => false

/-- A stroke and the frame it was made in. -/
structure Trace (α : Type) where
  frame : Frame α
  mark : Mark α
  deriving DecidableEq, Repr

/-- Those of the strokes that are glyphs. -/
def Trace.glyphs (ts : List (Trace α)) : List (Trace α) := ts.filter fun t => t.mark.isGlyph

/-- The strokes of a log in order, where the canvas had the given frames before it. -/
def Frames.traces [Scalar α] : Frames α → List (Op α) → List (Trace α)
  | _, [] => []
  | s, op :: ops => (op.mark?.map (Trace.mk s.current)).toList ++ (s.step op).traces ops

end MagicCircle
