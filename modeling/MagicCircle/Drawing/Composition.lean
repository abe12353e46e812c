import MagicCircle.Canvas.Request
import MagicCircle.Drawing.Inventory

/-!
# Drawings wherever they are made

A log tells of the canvas in one thing only, in where the glyphs lie on it. Apart from that the log
of a diagram has in it the logs of its components, as they are when each component is drawn by
itself.
-/

namespace MagicCircle

variable {α σ : Type}

/-- How drawings end that differ in nothing but the strokes taken before them, of which there were
`n` and `n'`: a stroke that is refused has another number. -/
inductive Draw.EndAlike (n n' : Nat) :
    Except (DrawError α) Unit → Except (DrawError α) Unit → Prop
  | ok : EndAlike n n' (.ok ()) (.ok ())
  | leaf (name : String) (cause : GlyphError) :
    EndAlike n n' (.error (.leaf name cause)) (.error (.leaf name cause))
  | glyph (name : String) (k : Nat) :
    EndAlike n n' (.error (.glyph name (.ofStroke (n + k))))
      (.error (.glyph name (.ofStroke (n' + k))))
  | surface (k : Nat) :
    EndAlike n n' (.error (.surface (.ofStroke (n + k)))) (.error (.surface (.ofStroke (n' + k))))
  | invalidSide (side : α) :
    EndAlike n n' (.error (.invalidSide side)) (.error (.invalidSide side))

/-- As many strokes have been taken since there were `n` on the one canvas and `n'` on the other,
and as many are still to be taken. -/
structure Canvas.Abreast (n n' : Nat) (c c' : Canvas α) : Prop where
  left : c.left = c'.left
  strokes : ∃ k, c.strokes = n + k ∧ c'.strokes = n' + k

variable [Scalar α]

open Scalar (num)

/-- The entry without what it tells of the canvas: where a glyph lies on it and how it is turned. -/
def Op.unplaced : Op α → Op α
  | .mark (.glyph strokes size _ _) => .mark (.glyph strokes size Point.origin (num 0))
  | op => op

namespace Action

/-- What the action adds to any log, without the place of a glyph. -/
def entry (a : Action α) (glyph : Glyph) : Op α :=
  (a.op (fun _ => glyph) (Canvas.blank none)).unplaced

/-- What actions add to any log, without the places of glyphs, where their look-ups find the given
glyphs one after the other. -/
def entries : List (Action α) → List Glyph → List (Op α)
  | [], _ => []
  | a :: as, gs => a.entry (gs.headD ⟨[]⟩) :: entries as (gs.drop (lookups a.events).length)

end Action

/-- What moving the frame adds to a log. -/
def Canvas.moves (f : Canvas α → Canvas α) : List (Op α) := (f (Canvas.blank none)).ops.toList

/-- The log of a component's region around what is drawn in it. -/
def Shape.regionLog (shape : Shape) (region : Region α) (part : List (Op α)) : List (Op α) :=
  .save :: (Canvas.moves (shape.enterRegion region) ++ part ++ [.restore])

namespace Diagram

/-- Drawn by itself into a square of that size, the diagram leaves this in its frame, without the
places of glyphs: on any canvas that takes its strokes, and from any source that has these answers
for its runes. A size that cannot be drawn is left out. -/
def Leaves (d : Diagram) (size : α) (answers : List (Except GlyphError Glyph))
    (part : List (Op α)) : Prop :=
  Scalar.usable size = true → ∀ (τ : Type) (source : Source τ) (t : τ) (c : Canvas α),
    source.answers d.leaves t = answers → c.HasRoom (strokeCount d.events) →
      let alone := d.renderOn source size c t
      alone.1 = .ok () ∧ ∃ log, alone.2.1.ops.toList = c.ops.toList ++ .save :: (log ++ [.restore]) ∧
        log.map Op.unplaced = part

/-- The log of a diagram, without the places of glyphs, is put together from those of its
components, and so are they from those of theirs. Each of them is what the component leaves when it
is drawn by itself into a square of its region's size. The source is in the state given before the
drawing. -/
def Composed (source : Source σ) : Diagram → α → σ → List (Op α) → Prop
  | rune name, side, s, log => ∃ g, (source name s).1 = .ok g ∧
    log = [.mark (.glyph g.strokes.length side Point.origin (num 0))]
  | solo shape inner, side, s, log =>
    let plan := shape.solo side
    ∃ part, log = Canvas.moves (shape.enter side) ++ .mark plan.border.mark ::
        shape.regionLog plan.region part ∧
      inner.Leaves plan.region.size (source.answers inner.leaves s) part ∧
      inner.Composed source plan.region.size s part
  | pair shape first second, side, s, log =>
    let plan := shape.pair side
    let t := source.asked first.leaves s
    ∃ part part', log = Canvas.moves (shape.enter side) ++ .mark plan.border.mark ::
        .mark (.line plan.divider) ::
          (shape.regionLog plan.first part ++ shape.regionLog plan.second part') ∧
      first.Leaves plan.first.size (source.answers first.leaves s) part ∧
      first.Composed source plan.first.size s part ∧
      second.Leaves plan.second.size (source.answers second.leaves t) part' ∧
      second.Composed source plan.second.size t part'

end Diagram

end MagicCircle
