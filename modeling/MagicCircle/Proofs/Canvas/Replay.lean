import MagicCircle.Canvas.Balance
import MagicCircle.Canvas.Replay

/-!
# One more entry in a log

What an operation does to each part of a canvas.
-/

namespace MagicCircle.Canvas

variable {α : Type} [Scalar α] (c : Canvas α) (op : Op α)

theorem ops_apply : (c.apply op).ops = c.ops.push op := by
  rcases c with ⟨_, _, _ | _, _, _⟩ <;> rcases op <;> rfl

theorem frames_apply : (c.apply op).frames = c.frames.step op := by
  rcases c with ⟨_, _, _ | _, _, _⟩ <;> rcases op <;> rfl

theorem limit_apply : (c.apply op).limit = c.limit := by
  rcases c with ⟨_, _, _ | _, _, _⟩ <;> rcases op <;> rfl

theorem strokes_apply : (c.apply op).strokes = c.strokes + [op].countP Op.isMark := by
  rcases c with ⟨_, _, _ | _, _, _⟩ <;> rcases op <;> rfl

end MagicCircle.Canvas
