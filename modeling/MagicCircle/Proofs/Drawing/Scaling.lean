import MagicCircle.Proofs.Drawing.Placement
import MagicCircle.Proofs.Exact.Scaling

/-!
# A drawing scales with its side

`Diagram.renderOn_scaled`: to draw a diagram `k` times as large on a scaled canvas comes to what
drawing it does, with all lengths scaled.

The induction along the diagram is on `Draw.Scales`, which compares a step with the one that is to be
made on a scaled canvas.
-/

namespace MagicCircle

variable {σ β γ : Type} {k : ℝ}

theorem Border.mark_scaled (b : Border ℝ) : (b.scaled k).mark = b.mark.scaled k := by
  rcases b with _ | _ | _ <;> rfl

namespace Draw

/-- On a scaled canvas the second step comes to what the first one does, scaled. -/
def Scales (k : ℝ) (m m' : Draw ℝ σ β) : Prop :=
  ∀ c s, m'.exec (c.scaled k) s = scaled k (m.exec c s)

namespace Scales

theorem bind {m m' : Draw ℝ σ β} {f f' : β → Draw ℝ σ γ} (hm : Scales k m m')
    (hf : ∀ b, Scales k (f b) (f' b)) : Scales k (m >>= f) (m' >>= f') := by
  intro c s
  have hm' := hm c s
  rcases h : m.exec c s with ⟨e | b, c₁, s₁⟩ <;> rw [h] at hm'
  · rw [exec_bind_error h, exec_bind_error hm']
    rfl
  · rw [exec_bind_ok h, exec_bind_ok hm']
    exact hf b c₁ s₁

theorem onCanvas {f f' : Canvas ℝ → Canvas ℝ} (h : ∀ c, f' (c.scaled k) = (f c).scaled k) :
    Scales k (onCanvas f : Draw ℝ σ Unit) (onCanvas f') := by
  intro c s
  change (Except.ok (), f' (c.scaled k), s) = (Except.ok (), (f c).scaled k, s)
  rw [h]

theorem stroke {fail : Rejection → DrawError ℝ} {m m' : Canvas ℝ → Mark ℝ}
    (hfail : ∀ r, (fail r).scaled k = fail r) (h : ∀ c, m' (c.scaled k) = (m c).scaled k) :
    Scales k (stroke fail m : Draw ℝ σ Unit) (stroke fail m') := by
  intro c s
  rw [exec_stroke, exec_stroke, h, Canvas.stroke_scaled]
  rcases c.stroke (m c) with r | c'
  · change (Except.error (fail r), _, _) = (Except.error ((fail r).scaled k), _, _)
    rw [hfail]
  · rfl

theorem lookup (source : Source σ) (name : String) :
    Scales k (lookup source name) (lookup source name) := by
  intro c s
  rw [exec_lookup, exec_lookup]
  rcases source name s with ⟨e | g, t⟩ <;> rfl

theorem inOwnFrame {m m' : Draw ℝ σ Unit} (h : Scales k m m') :
    Scales k (inOwnFrame m) (inOwnFrame m') := by
  intro c s
  have hsave : (c.scaled k).save = c.save.scaled k := c.apply_scaled .save
  rw [exec_inOwnFrame, exec_inOwnFrame, hsave, h c.save s]
  exact congrArg (fun d => (_, d, _)) ((m.exec c.save s).2.1.apply_scaled .restore)

theorem region {m m' : Draw ℝ σ Unit} (h : Scales k m m') (shape : Shape) (region : Region ℝ) :
    Scales k (Draw.inOwnFrame do Draw.onCanvas (shape.enterRegion region); m)
      (Draw.inOwnFrame do Draw.onCanvas (shape.enterRegion (region.scaled k)); m') :=
  ((onCanvas fun c => c.enterRegion_scaled shape region).bind fun _ => h).inOwnFrame

end Scales

end Draw

namespace Diagram

open Draw (Scales)

variable (source : Source σ)

theorem draw_scales : ∀ (d : Diagram) (side : ℝ),
    Scales k (d.draw source side) (d.draw source (k * side))
  | rune name, side =>
    (Scales.lookup source name).bind fun g =>
      .stroke (fun _ => rfl) fun c => c.glyphMark_scaled g.strokes.length side
  | solo shape inner, side => by
    rw [draw, draw, Shape.solo_scaled]
    refine (Scales.onCanvas fun c => c.enter_scaled shape side).bind fun _ => ?_
    refine (Scales.stroke (fun _ => rfl) fun _ => Border.mark_scaled _).bind fun _ => ?_
    exact (draw_scales inner _).region shape _
  | pair shape first second, side => by
    rw [draw, draw, Shape.pair_scaled]
    refine (Scales.onCanvas fun c => c.enter_scaled shape side).bind fun _ => ?_
    refine (Scales.stroke (fun _ => rfl) fun _ => Border.mark_scaled _).bind fun _ => ?_
    refine (Scales.stroke (fun _ => rfl) fun _ => rfl).bind fun _ => ?_
    refine ((draw_scales first _).region shape _).bind fun _ => ?_
    exact (draw_scales second _).region shape _

/-- Drawing a diagram `k` times as large comes to the same with all lengths scaled. -/
theorem renderOn_scaled (hk : 0 < k) (d : Diagram) (side : ℝ) (c : Canvas ℝ) (s : σ) :
    d.renderOn source (k * side) (c.scaled k) s = Draw.scaled k (d.renderOn source side c s) := by
  have husable : Scalar.usable (k * side) = Scalar.usable side := by
    rw [Bool.eq_iff_iff, Scalar.usable_real, Scalar.usable_real, mul_pos_iff_of_pos_left hk]
  change (d.render source (k * side)).exec _ s = Draw.scaled k ((d.render source side).exec c s)
  unfold render
  rw [husable]
  split
  · exact (draw_scales source d side).inOwnFrame c s
  · rfl

theorem renderOn_ok {d : Diagram} {side : ℝ} {s : σ} (hside : 0 < side)
    (hs : source.Resolves d.leaves s) :
    (d.renderOn source side (Canvas.blank none) s).1 = .ok () := by
  obtain ⟨c', _, hexec, -⟩ :=
    d.drawnBy source ⟨Point.origin, side⟩ (Canvas.blank none).save s rfl rfl hside hs
  change ((d.render source side).exec (Canvas.blank none) s).1 = .ok ()
  rw [render, if_pos (Scalar.usable_real.2 hside), Draw.exec_inOwnFrame, hexec]

/-- On a blank canvas, a drawing `k` times as large ends as the drawing does and leaves the same log
with all lengths and coordinates multiplied by `k`. If the side can be drawn, all runes have glyphs
and no stroke is refused, it is drawn to its end. -/
theorem renderOn_scales (hk : 0 < k) (d : Diagram) (side : ℝ) (limit : Option Nat) (s : σ) :
    let drawn := d.renderOn source side (Canvas.blank limit) s
    let larger := d.renderOn source (k * side) (Canvas.blank limit) s
    larger.2.1.ops.toList = drawn.2.1.ops.toList.map (Op.scaled k) ∧
      larger.1 = drawn.1.mapError (DrawError.scaled k) ∧ larger.2.2 = drawn.2.2 ∧
      (0 < side → limit = none → source.Resolves d.leaves s → larger.1 = .ok ()) := by
  intro drawn larger
  have hscaled : larger = Draw.scaled k drawn := by
    have h := renderOn_scaled source hk d side (Canvas.blank limit) s
    rwa [Canvas.blank_scaled] at h
  refine ⟨?_, ?_, ?_, fun hside hlimit hs => ?_⟩
  · rw [hscaled]
    exact Array.toList_map
  · rw [hscaled, Draw.scaled]
  · rw [hscaled, Draw.scaled]
  · subst hlimit
    exact renderOn_ok source (mul_pos hk hside) hs

/-- A spell around a rune and a target with two runes, twice as large. -/
theorem renderOn_scales_twice :
    let d : Diagram := .pair .spell (.rune "a") (.pair (.triangle .target) (.rune "b") (.rune "c"))
    let source : Source Unit := .ofGlyphs fun _ => ⟨[[⟨0, 1⟩, ⟨1, 0⟩]]⟩
    let drawn := d.renderOn source (1 : ℝ) (Canvas.blank none) ()
    let larger := d.renderOn source (2 * 1 : ℝ) (Canvas.blank none) ()
    (0 : ℝ) < 2 ∧ larger.1 = .ok () ∧
      larger.2.1.ops.toList = drawn.2.1.ops.toList.map (Op.scaled 2) := by
  intro d source drawn larger
  have hs : source.Resolves d.leaves () := ⟨⟨_, rfl⟩, ⟨_, rfl⟩, ⟨_, rfl⟩, trivial⟩
  obtain ⟨hops, -, -, hok⟩ := renderOn_scales source two_pos d 1 none ()
  exact ⟨two_pos, hok one_pos rfl hs, hops⟩

end Diagram

end MagicCircle
