import Mathlib.Tactic.SplitIfs
import MagicCircle.Canvas.Balance
import MagicCircle.Proofs.Drawing.Steps

/-!
# The frames that a drawing leaves

A drawing may stop at any stroke and at any look-up. However it ends, its canvas has the frames it
was given in, the current one as well as the saved ones, and what was added to the log is balanced.

The invariant is `Canvas.Extends`: nothing was done to the frames saved before. Each way of making a
step has a lemma that the step keeps it (`Draw.Keeps`), and `Diagram.draw_keeps` puts them together
along the diagram.
-/

namespace MagicCircle

variable {α σ β γ : Type}

/-- The second canvas is the first one after a balanced log, with the same frames saved. -/
structure Canvas.Extends (c c' : Canvas α) : Prop where
  saved : c'.saved = c.saved
  ops : ∃ ops, c'.ops.toList = c.ops.toList ++ ops ∧ Balanced ops

namespace Canvas.Extends

variable {c c' c'' : Canvas α}

theorem refl (c : Canvas α) : c.Extends c := ⟨rfl, [], by simp, .nil⟩

theorem trans (h : c.Extends c') (h' : c'.Extends c'') : c.Extends c'' := by
  obtain ⟨ops, hops, hb⟩ := h.ops
  obtain ⟨ops', hops', hb'⟩ := h'.ops
  exact ⟨h'.saved.trans h.saved, ops ++ ops', by rw [hops', hops, List.append_assoc],
    hb.append hb'⟩

theorem of_push {op : Op α} (hs : op.isSave = false) (hr : op.isRestore = false)
    (saved : c'.saved = c.saved) (ops : c'.ops = c.ops.push op) : c.Extends c' :=
  ⟨saved, [op], by rw [ops, Array.toList_push], .single hs hr⟩

theorem stroke {m : Mark α} (h : c.stroke m = .ok c') : c.Extends c' := by
  rw [Canvas.stroke] at h
  split_ifs at h
  cases h
  exact of_push rfl rfl rfl rfl

/-- What is done between a save and a restore stays there. -/
theorem scope (h : c.save.Extends c') : c.Extends c'.restore ∧ c'.restore.frame = c.frame := by
  obtain ⟨ops, hops, hb⟩ := h.ops
  have hsaved : c'.saved = c.frame :: c.saved := h.saved
  have hr : c'.restore = { c'.record .restore with frame := c.frame, saved := c.saved } := by
    rw [Canvas.restore, hsaved]
  rw [hr]
  refine ⟨⟨rfl, .save :: (ops ++ [.restore]), ?_, hb.scope⟩, rfl⟩
  simp [record, hops, save]

variable [Scalar α]

theorem translate (c : Canvas α) (x y : α) : c.Extends (c.translate x y) :=
  of_push rfl rfl rfl rfl

theorem rotate (c : Canvas α) (radians : α) : c.Extends (c.rotate radians) :=
  of_push rfl rfl rfl rfl

theorem rotateAboutCentre (c : Canvas α) (side angle : α) :
    c.Extends (c.rotateAboutCentre side angle) :=
  ((translate ..).trans (rotate ..)).trans (translate ..)

theorem enter (shape : Shape) (side : α) (c : Canvas α) : c.Extends (shape.enter side c) := by
  rcases shape with _ | _ | t
  · exact translate ..
  · exact refl c
  · exact rotateAboutCentre ..

theorem enterRegion (shape : Shape) (region : Region α) (c : Canvas α) :
    c.Extends (shape.enterRegion region c) := by
  rcases shape with _ | _ | t
  · exact translate ..
  · exact translate ..
  · exact (translate ..).trans (rotateAboutCentre ..)

end Canvas.Extends

namespace Draw

/-- The step leaves every canvas with the frames it had saved, whether the step fails or not. -/
def Keeps (m : Draw α σ β) : Prop := ∀ (c : Canvas α) (s : σ), c.Extends (m.exec c s).2.1

namespace Keeps

theorem bind {m : Draw α σ β} {f : β → Draw α σ γ} (hm : m.Keeps) (hf : ∀ b, (f b).Keeps) :
    (m >>= f).Keeps := by
  intro c s
  rcases hr : m.exec c s with ⟨e | b, c', s'⟩
  · rw [exec_bind_error hr]
    simpa only [hr] using hm c s
  · rw [exec_bind_ok hr]
    have hc : c.Extends c' := by simpa only [hr] using hm c s
    exact hc.trans (hf b c' s')

theorem onCanvas {f : Canvas α → Canvas α} (h : ∀ c : Canvas α, c.Extends (f c)) :
    (Draw.onCanvas f : Draw α σ Unit).Keeps := fun c _ => h c

theorem stroke (fail : Rejection → DrawError α) (k : Canvas α → Mark α) :
    (Draw.stroke fail k : Draw α σ Unit).Keeps := by
  intro c s
  rw [exec_stroke]
  rcases h : c.stroke (k c) with r | c'
  · exact .refl c
  · exact .stroke h

theorem lookup (source : Source σ) (name : String) :
    (Draw.lookup source name : Draw α σ Glyph).Keeps := by
  intro c s
  rw [exec_lookup]
  rcases source name s with ⟨_ | _, t⟩ <;> exact .refl c

/-- In a frame of its own, a step leaves even the current frame as it was. -/
theorem exec_inOwnFrame {m : Draw α σ Unit} (h : m.Keeps) (c : Canvas α) (s : σ) :
    c.Extends ((inOwnFrame m).exec c s).2.1 ∧ ((inOwnFrame m).exec c s).2.1.frame = c.frame :=
  (h c.save s).scope

theorem inOwnFrame {m : Draw α σ Unit} (h : m.Keeps) : (inOwnFrame m).Keeps :=
  fun c s => (h.exec_inOwnFrame c s).1

end Keeps

end Draw

namespace Diagram

open Draw (Keeps)

variable [Scalar α]

theorem drawRune_keeps (source : Source σ) (name : String) (side : α) :
    (drawRune source name side).Keeps :=
  (Keeps.lookup source name).bind fun _ => .stroke _ _

theorem region_keeps {m : Draw α σ Unit} (h : m.Keeps) (shape : Shape) (region : Region α) :
    (Draw.inOwnFrame do Draw.onCanvas (shape.enterRegion region); m).Keeps :=
  Keeps.inOwnFrame ((Keeps.onCanvas (.enterRegion shape region)).bind fun _ => h)

theorem draw_keeps (source : Source σ) : ∀ (d : Diagram) (side : α), (d.draw source side).Keeps
  | rune name, side => drawRune_keeps source name side
  | solo shape inner, side => by
    refine (Keeps.onCanvas (.enter shape side)).bind fun _ => ?_
    refine (Keeps.stroke _ _).bind fun _ => ?_
    exact region_keeps (draw_keeps source inner _) shape _
  | pair shape first second, side => by
    refine (Keeps.onCanvas (.enter shape side)).bind fun _ => ?_
    refine (Keeps.stroke _ _).bind fun _ => (Keeps.stroke _ _).bind fun _ => ?_
    refine (region_keeps (draw_keeps source first _) shape _).bind fun _ => ?_
    exact region_keeps (draw_keeps source second _) shape _

/-- However a drawing ends, the current frame and the saved ones are those from before it, and it
has added a balanced log. A side that cannot be drawn leaves no trace at all. -/
theorem renderOn_restores_frames (source : Source σ) (d : Diagram) (side : α) (c : Canvas α)
    (s : σ) :
    let drawn := (d.renderOn source side c s).2.1
    drawn.frame = c.frame ∧ drawn.saved = c.saved ∧
      ∃ ops, drawn.ops.toList = c.ops.toList ++ ops ∧ Balanced ops ∧
        (Scalar.usable side = false → ops = []) := by
  intro drawn
  have hdrawn : drawn = ((d.render source side).exec c s).2.1 := rfl
  rcases hu : Scalar.usable side with _ | _
  · rw [render, hu] at hdrawn
    have hc : drawn = c := hdrawn
    exact ⟨by rw [hc], by rw [hc], [], by simp [hc], .nil, fun _ => rfl⟩
  · rw [render, if_pos hu] at hdrawn
    obtain ⟨h, hf⟩ := (draw_keeps source d side).exec_inOwnFrame c s
    rw [← hdrawn] at h hf
    obtain ⟨ops, hops, hb⟩ := h.ops
    exact ⟨hf, h.saved, ops, hops, hb, nofun⟩

end Diagram

end MagicCircle
