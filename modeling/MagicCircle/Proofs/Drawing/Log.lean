import MagicCircle.Drawing.Script
import MagicCircle.Proofs.Canvas.Replay

/-!
# The log of a script

Every action adds one entry to the log (`Action.ops`), and which one is settled by the frames of the
canvas and by the glyphs of the names that the script has looked up.
-/

namespace MagicCircle

variable {α : Type} [Scalar α]

namespace Action

variable (glyph : String → Glyph)

theorem foldl_apply_ops : ∀ (as : List (Action α)) (c : Canvas α),
    (as.foldl (apply glyph) c).ops.toList = c.ops.toList ++ ops glyph c as
  | [], c => (List.append_nil _).symm
  | a :: as, c => by
    rw [List.foldl_cons, foldl_apply_ops as, apply, Canvas.ops_apply, Array.toList_push,
      List.append_assoc]
    rfl

theorem ops_append (bs : List (Action α)) : ∀ (as : List (Action α)) (c : Canvas α),
    ops glyph c (as ++ bs) = ops glyph c as ++ ops glyph (as.foldl (apply glyph) c) bs
  | [], _ => rfl
  | a :: as, c => congrArg (a.op glyph c :: ·) (ops_append bs as (a.apply glyph c))

theorem foldl_depth_ops : ∀ (as : List (Action α)) (c : Canvas α) (n : Nat),
    (ops glyph c as).foldl Op.depth n = as.foldl depth n
  | [], _, _ => rfl
  | a :: as, c, n => by
    have ha : (a.op glyph c).depth n = a.depth n := by rcases a <;> rfl
    rw [ops, List.foldl_cons, List.foldl_cons, ha]
    exact foldl_depth_ops as _ _

theorem countP_isMark_op (c : Canvas α) (a : Action α) :
    [a.op glyph c].countP Op.isMark = strokeCount a.events := by
  rcases a <;> rfl

/-- The strokes in the log of a script are those among its steps. -/
theorem countP_isMark_ops : ∀ (as : List (Action α)) (c : Canvas α),
    (ops glyph c as).countP Op.isMark = strokeCount (as.flatMap events)
  | [], _ => rfl
  | a :: as, c => by
    rw [ops, List.flatMap_cons, strokeCount, List.countP_append, ← List.singleton_append,
      List.countP_append, countP_isMark_op, countP_isMark_ops as]
    rfl

theorem op_congr {glyph glyph' : String → Glyph} {c c' : Canvas α} {a : Action α}
    (hg : ∀ name ∈ lookups a.events, glyph name = glyph' name) (hc : c.frames = c'.frames) :
    a.op glyph c = a.op glyph' c' := by
  rcases a with _ | _ | _ | _ | _ | _ | ⟨name, size⟩
  case rune =>
    have hname : glyph name = glyph' name := hg name (by simp [lookups, events, Event.name?])
    have hf : c.frame = c'.frame := congrArg Frames.current hc
    simp only [op, Canvas.glyphMark, hname, hf]
  all_goals rfl

/-- Canvases with the same frames get the same log. -/
theorem ops_congr {glyph glyph' : String → Glyph} : ∀ (as : List (Action α)) {c c' : Canvas α},
    (∀ name ∈ lookups (as.flatMap events), glyph name = glyph' name) → c.frames = c'.frames →
      ops glyph c as = ops glyph' c' as
  | [], _, _, _, _ => rfl
  | a :: as, c, c', hg, hc => by
    rw [List.flatMap_cons, lookups, List.filterMap_append] at hg
    have hop := op_congr (fun name h => hg name (List.mem_append_left _ h)) hc
    have hf : (a.apply glyph c).frames = (a.apply glyph' c').frames := by
      rw [apply, apply, Canvas.frames_apply, Canvas.frames_apply, hop, hc]
    rw [ops, ops, hop, ops_congr as (fun name h => hg name (List.mem_append_right _ h)) hf]

end Action

/-- The steps of a script that may fail are those of its diagram. -/
theorem Diagram.flatMap_events_script : ∀ (d : Diagram) (side : α),
    (d.script side).flatMap Action.events = d.events
  | rune .., _ => rfl
  | solo shape inner, side => by
    have ih := flatMap_events_script inner (shape.solo side).region.size
    rcases shape with _ | _ | _ <;>
      simp [script, Shape.entering, Shape.enteringRegion, Action.rotateAboutCentre,
        Action.framed, Action.events, events, ih]
  | pair shape first second, side => by
    have ih := flatMap_events_script first (shape.pair side).first.size
    have ih' := flatMap_events_script second (shape.pair side).second.size
    rcases shape with _ | _ | _ <;>
      simp [script, Shape.entering, Shape.enteringRegion, Action.rotateAboutCentre,
        Action.framed, Action.events, events, ih, ih']

end MagicCircle
