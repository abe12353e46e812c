import MagicCircle.Proofs.Canvas.Trace
import MagicCircle.Proofs.Drawing.Scopes
import MagicCircle.Proofs.Exact.Picture

/-!
# Where a drawing puts its strokes

`Diagram.renderOn_placed`: drawn on a blank canvas in exact arithmetic, a diagram is placed in the
square of the side it is drawn with.

What carries the induction along the diagram is `Diagram.DrawnBy`: in every frame that has only been
moved, the diagram is placed in the square at the frame's origin. A component is drawn in such a
frame again (`DrawnBy.exec_region`).
-/

namespace MagicCircle

variable {σ : Type} {source : Source σ} {c c' : Canvas ℝ} {s s' : σ}

theorem Source.resolves_append (source : Source σ) (names' : List String) :
    ∀ (names : List String) (s : σ), source.Resolves (names ++ names') s ↔
      source.Resolves names s ∧ source.Resolves names' (source.asked names s)
  | [], _ => (and_iff_right trivial).symm
  | name :: names, s => by
    rw [List.cons_append, Resolves, Resolves, resolves_append source names' names, and_assoc]
    rfl

namespace Draw

theorem exec_onCanvas (f : Canvas ℝ → Canvas ℝ) :
    (onCanvas f : Draw ℝ σ Unit).exec c s = (.ok (), f c, s) := rfl

theorem exec_stroke_free (fail : Rejection → DrawError ℝ) (k : Canvas ℝ → Mark ℝ)
    (h : c.limit = none) : (stroke fail k : Draw ℝ σ Unit).exec c s =
      (.ok (), c.apply (.mark (k c)), s) := by
  rw [exec_stroke, Canvas.stroke, Canvas.accepts, h]
  rfl

end Draw

namespace Canvas.Leaves

theorem translate (c : Canvas ℝ) (x y : ℝ) : c.Leaves (c.translate x y) [] :=
  apply c (.translate x y)

theorem rotateAboutCentre (c : Canvas ℝ) (side angle : ℝ) :
    c.Leaves (c.rotateAboutCentre side angle) [] :=
  ((translate ..).trans (apply _ (.rotate angle))).trans (translate ..)

theorem enter (shape : Shape) (side : ℝ) (c : Canvas ℝ) :
    c.Leaves (shape.enter side c) [] := by
  rcases shape with _ | _ | t
  · exact translate ..
  · exact refl c
  · exact rotateAboutCentre ..

theorem enterRegion (shape : Shape) (region : Region ℝ) (c : Canvas ℝ) :
    c.Leaves (shape.enterRegion region c) [] := by
  rcases shape with _ | _ | t
  · exact translate ..
  · exact translate ..
  · exact (translate ..).trans (rotateAboutCentre ..)

end Canvas.Leaves

/-- A glyph that is drawn in an upright frame fills the square at the frame's origin. -/
theorem Canvas.glyphMark_fills {q : Region ℝ} (hc : c.frame = .translation q.corner.x q.corner.y)
    (strokes : Nat) : (Trace.mk c.frame (c.glyphMark strokes q.size)).Fills q := by
  constructor
  · have hplace : c.frame.apply Point.origin = q.corner := by
      rw [hc, Frame.translation_apply]
      simp [Point.origin]
    have hturned : c.frame.angle = 0 := by
      have h : (⟨1, 0⟩ : ℂ) = 1 := rfl
      rw [hc, Frame.angle, Frame.translation, Scalar.num_real, Scalar.num_real, Nat.cast_zero,
        Nat.cast_one, Scalar.atan2_real, h, Complex.arg_one]
    exact ⟨strokes, by rw [glyphMark, hplace, hturned]⟩
  · have hsquare : c.frame.square ⟨Point.origin, q.size⟩ = q := by
      rw [hc, Frame.square, Frame.translation_apply]
      simp [Region.about, Region.centre, Point.origin]
    have hquarter : c.frame.QuarterTurned := by
      rw [hc]
      exact .translation ..
    rw [Trace.points, glyphMark, Mark.points, hquarter.image_points, hsquare]

theorem Shape.image_enter {shape : Shape} {q : Region ℝ} {A : Set (Point ℝ)}
    (hc : c.frame = .translation q.corner.x q.corner.y) (hA : A ⊆ (shape.home q.size).points) :
    (shape.enter q.size c).frame.apply '' A ⊆ q.points := by
  refine (Set.image_mono hA).trans ?_
  rw [(Shape.enter_quarterTurned shape q.size hc).image_points, Shape.square_enter shape q.size hc]

theorem Region.Fits.lands {region : Region ℝ} {border : Border ℝ} {side : ℝ} {t : Frame ℝ}
    (h : region.Fits border side) (ht : t.QuarterTurned) :
    region.Lands t border (t.square region) := by
  refine ⟨rfl, (ht.image_points region).symm, ?_⟩
  rw [← ht.image_points]
  exact Set.image_mono h.inside

namespace Diagram

/-- Wherever the diagram is drawn upright, it is drawn to its end, in the square at the frame's
origin. -/
def DrawnBy (source : Source σ) (d : Diagram) : Prop :=
  ∀ (q : Region ℝ) (c : Canvas ℝ) (s : σ), c.limit = none →
    c.frame = .translation q.corner.x q.corner.y → 0 < q.size → source.Resolves d.leaves s →
      ∃ c' ts, (d.draw source q.size).exec c s = (.ok (), c', source.asked d.leaves s) ∧
        c.Leaves c' ts ∧ Placed d q ts

theorem rune_drawnBy (source : Source σ) (name : String) : (rune name).DrawnBy source := by
  rintro q c s hlimit hc - ⟨⟨g, hg⟩, -⟩
  refine ⟨c.apply (.mark (c.glyphMark g.strokes.length q.size)), _, ?_, .apply c _,
    .rune (Canvas.glyphMark_fills hc g.strokes.length)⟩
  rw [draw, drawRune, Draw.exec_bind_ok (Draw.exec_lookup_resolved hg),
    Draw.exec_stroke_free _ _ hlimit]
  rfl

theorem DrawnBy.exec_region {d : Diagram} (h : d.DrawnBy source) (shape : Shape) {q : Region ℝ}
    {region : Region ℝ} (hregion : 0 < region.size) (hlimit : c'.limit = none)
    (hc : c.frame = .translation q.corner.x q.corner.y)
    (hc' : c'.frame = (shape.enter q.size c).frame) (hs : source.Resolves d.leaves s) :
    ∃ c'' ts, (Draw.inOwnFrame do
        Draw.onCanvas (shape.enterRegion region); d.draw source region.size).exec c' s =
          (.ok (), c'', source.asked d.leaves s) ∧
      c'.Leaves c'' ts ∧ c''.frame = c'.frame ∧
        Placed d ((shape.enter q.size c).frame.square region) ts := by
  have hsave : c'.Leaves c'.save [] := .apply c' .save
  have henter := hsave.trans (.enterRegion shape region c'.save)
  obtain ⟨c₁, ts, hexec, hleaves, hplaced⟩ :=
    h ((shape.enter q.size c).frame.square region) _ s (henter.limit.trans hlimit)
      (Shape.frame_enterRegion shape q.size region hc hc') hregion hs
  have hbody : (do
      Draw.onCanvas (shape.enterRegion region); d.draw source region.size : Draw ℝ σ Unit).exec
        c'.save s = (.ok (), c₁, source.asked d.leaves s) := hexec
  have hrestore : c₁.Leaves c₁.restore [] := .apply c₁ .restore
  have hframe := (((Draw.Keeps.onCanvas (.enterRegion shape region)).bind fun _ =>
    draw_keeps source d region.size).exec_inOwnFrame c' s).2
  rw [Draw.exec_inOwnFrame, hbody] at hframe
  refine ⟨c₁.restore, ts, ?_, ?_, hframe, hplaced⟩
  · rw [Draw.exec_inOwnFrame, hbody]
  · simpa using (henter.trans hleaves).trans hrestore

theorem solo_drawnBy (shape : Shape) {d : Diagram} (h : d.DrawnBy source) :
    (solo shape d).DrawnBy source := by
  intro q c s hlimit hc hq hs
  have hquarter := Shape.enter_quarterTurned shape q.size hc
  have hfits := Shape.solo_fits shape hq
  set c₁ := shape.enter q.size c
  set m := (shape.solo q.size).border.mark
  have hleaves₁ : c.Leaves c₁ [] := .enter shape q.size c
  have hleaves₂ : c₁.Leaves (c₁.apply (.mark m)) [⟨c₁.frame, m⟩] := .apply ..
  have hlimit₁ : c₁.limit = none := hleaves₁.limit.trans hlimit
  obtain ⟨c', ts, hexec, hleaves, -, hplaced⟩ :=
    h.exec_region shape hfits.pos (hleaves₂.limit.trans hlimit₁) hc rfl hs
  refine ⟨c', ⟨c₁.frame, m⟩ :: ts, ?_, (hleaves₁.trans hleaves₂).trans hleaves,
    .solo rfl ?_ ?_ (hfits.lands hquarter) hplaced⟩
  · rw [draw, Draw.exec_bind_ok (Draw.exec_onCanvas _),
      Draw.exec_bind_ok (Draw.exec_stroke_free _ _ hlimit₁)]
    exact hexec
  · exact Shape.image_enter hc (Shape.border_points shape hq.le)
  · exact Shape.image_enter hc (Shape.border_area shape hq.le)

theorem pair_drawnBy (shape : Shape) {d e : Diagram} (h : d.DrawnBy source)
    (h' : e.DrawnBy source) : (pair shape d e).DrawnBy source := by
  intro q c s hlimit hc hq hs
  obtain ⟨hs, hs'⟩ := (source.resolves_append ..).1 hs
  have hquarter := Shape.enter_quarterTurned shape q.size hc
  have hpoints := Shape.border_points shape hq.le
  have harea := Shape.border_area shape hq.le
  obtain ⟨hfits, hfits'⟩ := Shape.pair_fits shape hq
  rw [← Shape.border_pair] at hpoints harea hfits hfits'
  set c₁ := shape.enter q.size c
  set m := (shape.pair q.size).border.mark
  set l := (shape.pair q.size).divider
  set c₂ := c₁.apply (.mark m)
  set c₃ := c₂.apply (.mark (.line l))
  have hleaves₁ : c.Leaves c₁ [] := .enter shape q.size c
  have hleaves₂ : c₁.Leaves c₂ [⟨c₁.frame, m⟩] := .apply ..
  have hleaves₃ : c₂.Leaves c₃ [⟨c₁.frame, .line l⟩] := .apply ..
  have hlimit₁ : c₁.limit = none := hleaves₁.limit.trans hlimit
  have hlimit₂ : c₂.limit = none := hleaves₂.limit.trans hlimit₁
  have hlimit₃ : c₃.limit = none := hleaves₃.limit.trans hlimit₂
  obtain ⟨c₄, ts, hexec, hleaves₄, hframe, hplaced⟩ :=
    h.exec_region shape hfits.pos hlimit₃ hc rfl hs
  -- The first component leaves the frame as it was, so the second region is entered from it too.
  obtain ⟨c₅, ts', hexec', hleaves₅, -, hplaced'⟩ :=
    h'.exec_region shape hfits'.pos (hleaves₄.limit.trans hlimit₃) hc hframe hs'
  have hapart := hquarter.separates (Shape.pair_separates shape hq)
  rw [hquarter.image_points, hquarter.image_points] at hapart
  refine ⟨c₅, ⟨c₁.frame, m⟩ :: ⟨c₁.frame, .line l⟩ :: (ts ++ ts'), ?_, ?_,
    .pair rfl ?_ ?_ rfl ?_ (hfits.lands hquarter) (hfits'.lands hquarter) hapart.disjoint hapart
      hplaced hplaced'⟩
  · rw [draw, Draw.exec_bind_ok (Draw.exec_onCanvas _),
      Draw.exec_bind_ok (Draw.exec_stroke_free _ _ hlimit₁),
      Draw.exec_bind_ok (Draw.exec_stroke_free _ _ hlimit₂), Draw.exec_bind_ok hexec, hexec',
      leaves, Source.asked, Source.asked, Source.asked, List.foldl_append]
  · exact (((hleaves₁.trans hleaves₂).trans hleaves₃).trans hleaves₄).trans hleaves₅
  · exact Shape.image_enter hc hpoints
  · exact Shape.image_enter hc harea
  · exact Shape.image_enter hc (Shape.divider_points shape hq.le)

theorem drawnBy (source : Source σ) : ∀ d : Diagram, d.DrawnBy source
  | rune name => rune_drawnBy source name
  | solo shape d => solo_drawnBy shape (drawnBy source d)
  | pair shape d e => pair_drawnBy shape (drawnBy source d) (drawnBy source e)

/-- A diagram whose runes all have glyphs is drawn to its end and placed in the square of the given
side. Its glyphs lie apart, and each shape around a glyph leaves it four fifths at most. -/
theorem renderOn_placed (source : Source σ) (d : Diagram) {side : ℝ} {s : σ} (hside : 0 < side)
    (hs : source.Resolves d.leaves s) :
    let drawn := d.renderOn source side (Canvas.blank none) s
    let ts := (Canvas.blank none).frames.traces drawn.2.1.ops.toList
    let whole : Region ℝ := ⟨Point.origin, side⟩
    drawn.1 = .ok () ∧ Placed d whole ts ∧
      (Trace.glyphs ts).Pairwise (fun t t' => Disjoint t.points t'.points) ∧
      (∀ t ∈ ts, t.points ⊆ whole.points) ∧
      List.Forall₂ (Trace.Shrunk side) d.leafDepths (Trace.glyphs ts) := by
  intro drawn ts whole
  set c : Canvas ℝ := Canvas.blank none
  have hsave : c.Leaves c.save [] := .apply c .save
  have hframe : c.save.frame = .translation whole.corner.x whole.corner.y := rfl
  obtain ⟨c', ts', hexec, hleaves, hplaced⟩ := d.drawnBy source whole c.save s rfl hframe hside hs
  have hdrawn : drawn = (.ok (), c'.restore, source.asked d.leaves s) := by
    have hrender : drawn = (d.render source side).exec c s := rfl
    rw [hrender, render, if_pos (Scalar.usable_real.2 hside), Draw.exec_inOwnFrame, hexec]
  have hts : ts = ts' := by
    have hall : c.Leaves c'.restore _ := (hsave.trans hleaves).trans (.apply c' .restore)
    obtain ⟨ops, hops, -, htraces⟩ := hall.ops
    have hlog : drawn.2.1.ops.toList = ops := by
      rw [hdrawn, hops]
      rfl
    change c.frames.traces drawn.2.1.ops.toList = ts'
    rw [hlog, htraces]
    simp [Op.mark?]
  rw [hdrawn, hts]
  exact ⟨rfl, hplaced, hplaced.pairwise_disjoint, hplaced.points_subset, hplaced.shrunk hside⟩

/-- Two runes in a spell, one of them in a triangle that is turned. -/
theorem renderOn_placed_nested :
    let d : Diagram := .pair .spell (.rune "a") (.solo (.triangle .restriction) (.rune "b"))
    let source : Source Unit := .ofGlyphs fun _ => ⟨[[⟨0, 1⟩, ⟨1, 0⟩]]⟩
    let drawn := d.renderOn source (1 : ℝ) (Canvas.blank none) ()
    let ts := (Canvas.blank none).frames.traces drawn.2.1.ops.toList
    (0 : ℝ) < 1 ∧ source.Resolves ["a", "b"] () ∧ drawn.1 = .ok () ∧
      List.Forall₂ (Trace.Shrunk 1) [1, 2] (Trace.glyphs ts) := by
  intro d source drawn ts
  have hs : source.Resolves d.leaves () := ⟨⟨_, rfl⟩, ⟨_, rfl⟩, trivial⟩
  obtain ⟨hok, -, -, -, hshrunk⟩ := renderOn_placed source d one_pos hs
  exact ⟨one_pos, hs, hok, hshrunk⟩

end Diagram

end MagicCircle
