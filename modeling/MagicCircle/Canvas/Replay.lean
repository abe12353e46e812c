import MagicCircle.Canvas.Basic

/-!
# Replaying a log

What a log says about the frames of the canvas that it was kept on, and how a canvas comes by an
entry.
-/

namespace MagicCircle

variable {α : Type} [Scalar α]

/-- A current frame and the frames saved before it, the last one first. -/
structure Frames (α : Type) where
  current : Frame α
  saved : List (Frame α)
  deriving DecidableEq, Repr

def Frames.step (s : Frames α) : Op α → Frames α
  | .save => ⟨s.current, s.current :: s.saved⟩
  | .restore => match s.saved with
    | [] => s
    | frame :: saved => ⟨frame, saved⟩
  | .translate x y => ⟨s.current.translate x y, s.saved⟩
  | .rotate radians => ⟨s.current.rotate radians, s.saved⟩
  | .mark _ => s

/-- The frames after a log, on a canvas that was blank before it. -/
def Frames.replay (ops : List (Op α)) : Frames α :=
  ops.foldl Frames.step ⟨Frame.identity, []⟩

def Canvas.frames (c : Canvas α) : Frames α := ⟨c.frame, c.saved⟩

/-- The canvas after one more operation, be it a stroke that the canvas would refuse. -/
def Canvas.apply (c : Canvas α) : Op α → Canvas α
  | .save => c.save
  | .restore => c.restore
  | .translate x y => c.translate x y
  | .rotate radians => c.rotate radians
  | .mark m => { c.record (.mark m) with strokes := c.strokes + 1 }

end MagicCircle
