import MagicCircle.Canvas.Replay

/-!
# Requests

What a canvas may be asked for, in any order, and how it answers. Only strokes are ever refused, and
what is asked for between two strokes makes no difference to that.
-/

namespace MagicCircle

variable {α : Type}

inductive Canvas.Request (α : Type)
  | save
  | restore
  | translate (x y : α)
  | rotate (radians : α)
  | arc (center : Point α) (radius start finish : α)
  | line (segment : Segment α)
  | rect (corner : Point α) (width height : α)
  | polygon (points : List (Point α))
  /-- A glyph of so many strokes, scaled to the given size. -/
  | glyph (strokes : Nat) (size : α)
  deriving DecidableEq, Repr

/-- The refusal of the stroke with the given number, which counts from one. -/
def Rejection.ofStroke (number : Nat) : Rejection :=
  ⟨"stroke " ++ toString number ++ " rejected"⟩

namespace Canvas

/-- Draws a stroke, or stays as it is. -/
def attempt (c : Canvas α) (m : Mark α) : Except Rejection Unit × Canvas α :=
  match c.stroke m with
  | .ok c' => (.ok (), c')
  | .error r => (.error r, c)

namespace Request

def isStroke : Request α → Bool
  | save | restore | translate .. | rotate _ => false
  | _ => true

/-- How a canvas of the given limit answers the request, after requests for so many strokes. -/
def answer (limit : Option Nat) (strokes : Nat) (r : Request α) : Except Rejection Unit :=
  match limit with
  | none => .ok ()
  | some limit =>
    if r.isStroke ∧ limit ≤ strokes then .error (.ofStroke (limit + 1)) else .ok ()

/-- The requests that were answered without a refusal. -/
def granted : List (Request α) → List (Except Rejection Unit) → List (Request α)
  | r :: rs, .ok () :: answers => r :: granted rs answers
  | _ :: rs, .error _ :: answers => granted rs answers
  | _, _ => []

variable [Scalar α]

/-- The entry that the request leaves in a log, where the canvas has the given frame. -/
def op (frame : Frame α) : Request α → Op α
  | save => .save
  | restore => .restore
  | translate x y => .translate x y
  | rotate radians => .rotate radians
  | arc center radius start finish => .mark (.arc center radius start finish)
  | line segment => .mark (.line segment)
  | rect corner width height => .mark (.rect corner width height)
  | polygon points => .mark (.polygon points)
  | glyph strokes size => .mark (.glyph strokes size (frame.apply Point.origin) frame.angle)

end Request

variable [Scalar α]

def serve (c : Canvas α) : Request α → Except Rejection Unit × Canvas α
  | .save => (.ok (), c.save)
  | .restore => (.ok (), c.restore)
  | .translate x y => (.ok (), c.translate x y)
  | .rotate radians => (.ok (), c.rotate radians)
  | .arc center radius start finish => c.attempt (.arc center radius start finish)
  | .line segment => c.attempt (.line segment)
  | .rect corner width height => c.attempt (.rect corner width height)
  | .polygon points => c.attempt (.polygon points)
  | .glyph strokes size => c.attempt (c.glyphMark strokes size)

/-- The answers to requests made one after the other, and the canvas after them. -/
def serveAll (c : Canvas α) : List (Request α) → List (Except Rejection Unit) × Canvas α
  | [] => ([], c)
  | r :: rs =>
    let now := c.serve r
    let rest := now.2.serveAll rs
    (now.1 :: rest.1, rest.2)

/-- The log accounts for the canvas: it has an entry for each of the requests granted, in their
order, and tells of all frames. The entry of a request is the one for the frame that the log up to
there leads to. -/
structure Accounts (c : Canvas α) (granted : List (Request α)) : Prop where
  frames : c.frames = Frames.replay c.ops.toList
  depth : c.depth = (Frames.replay c.ops.toList).saved.length
  size : c.ops.size = granted.length
  entry : ∀ before op after, c.ops.toList = before ++ op :: after →
    ∃ r, granted[before.length]? = some r ∧ op = r.op (Frames.replay before).current

end Canvas

end MagicCircle
