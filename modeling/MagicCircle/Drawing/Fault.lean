import MagicCircle.Canvas.Basic
import MagicCircle.Decimal.Shortest
import MagicCircle.Glyph.Basic

/-!
# Faults of drawing

The groups of a diagram have as many components as their shapes hold, since no others can be formed.
So there is no fault for a group that cannot be arranged.
-/

namespace MagicCircle

/-- Why a diagram could not be drawn. -/
inductive DrawError (α : Type)
  | leaf (name : String) (cause : GlyphError)
  /-- The canvas refused a rune's glyph. -/
  | glyph (name : String) (cause : Rejection)
  /-- The canvas refused another stroke. -/
  | surface (cause : Rejection)
  /-- The side is no length that can be drawn. -/
  | invalidSide (side : α)
  deriving DecidableEq, Repr

instance : Reportable (DrawError Float) where
  code
    | .leaf .. => "E_RENDER_LEAF"
    | .glyph .. => "E_SURFACE"
    | .surface _ => "E_SURFACE"
    | .invalidSide _ => "E_INVALID_SIDE"
  message
    | .leaf name cause => "cannot draw rune '" ++ name ++ "': " ++ Reportable.message cause
    | .glyph name cause => "cannot draw glyph for rune '" ++ name ++ "': " ++ cause.message
    | .surface cause => cause.message
    | .invalidSide side =>
      "side must be a positive finite number, got " ++ Decimal.messageText side
  retryable
    | .leaf _ cause => Reportable.retryable cause
    | _ => false

end MagicCircle
