import MagicCircle.Drawing.Scaling
import MagicCircle.Proofs.Exact.Plan

/-!
# Plans and canvases scale

The plans of a shape `k` times as large are those of the shape, scaled (`Shape.solo_scaled`,
`Shape.pair_scaled`): each of their formulas is homogeneous in the side. A frame that is moved by
scaled lengths is the moved frame, scaled, and turning a frame has nothing to do with lengths; so a
shape is entered on a scaled canvas as it is on the canvas (`Canvas.enter_scaled`).
-/

namespace MagicCircle

variable {k : ℝ}

theorem mul_half (k side : ℝ) : k * side / Scalar.num 2 = k * (side / Scalar.num 2) :=
  mul_div_assoc ..

theorem mul_num_zero (k : ℝ) : k * (Scalar.num 0 : ℝ) = Scalar.num 0 := by
  rw [Scalar.num_real, Nat.cast_zero, mul_zero]

theorem Point.origin_scaled : Point.origin.scaled k = Point.origin :=
  Point.ext (mul_num_zero k) (mul_num_zero k)

theorem Region.eq_scaled {r r' : Region ℝ} (hx : r.corner.x = k * r'.corner.x)
    (hy : r.corner.y = k * r'.corner.y) (hsize : r.size = k * r'.size) : r = r'.scaled k := by
  rcases r with ⟨⟨x, y⟩, size⟩
  subst hx hy hsize
  rfl

theorem Segment.eq_scaled {l l' : Segment ℝ} (hx : l.start.x = k * l'.start.x)
    (hy : l.start.y = k * l'.start.y) (hx' : l.finish.x = k * l'.finish.x)
    (hy' : l.finish.y = k * l'.finish.y) : l = l'.scaled k :=
  Segment.ext (Point.ext hx hy) (Point.ext hx' hy')

theorem PairPlan.eq_scaled {p p' : PairPlan ℝ} (hborder : p.border = p'.border.scaled k)
    (hdivider : p.divider = p'.divider.scaled k) (hfirst : p.first = p'.first.scaled k)
    (hsecond : p.second = p'.second.scaled k) : p = p'.scaled k := by
  rcases p with ⟨border, divider, first, second⟩
  subst hborder hdivider hfirst hsecond
  rfl

namespace Shape

variable (k) (side : ℝ)

theorem border_scaled (shape : Shape) :
    shape.border (k * side) = (shape.border side).scaled k := by
  rcases shape with _ | _ | t
  · rw [border, mul_half, border, Border.scaled, Point.origin_scaled]
  · rw [border, border, Border.scaled, Point.origin_scaled]
  · simp only [border, Border.scaled, Point.scaled, mul_half, mul_num_zero]

theorem inset_scaled (x y width : ℝ) :
    Region.inset (k * x) (k * y) (k * width) = (Region.inset x y width).scaled k := by
  refine Region.eq_scaled ?_ ?_ ?_ <;> simp only [Region.inset] <;> ring

theorem inset_zero_scaled (width : ℝ) :
    Region.inset (Scalar.num 0) (Scalar.num 0) (k * width) =
      (Region.inset (Scalar.num 0) (Scalar.num 0) width).scaled k := by
  rw [← inset_scaled, mul_num_zero]

theorem spellRegion_scaled : spellRegion (k * side) = (spellRegion side).scaled k := by
  refine Region.eq_scaled ?_ ?_ ?_ <;> simp only [spellRegion] <;> ring

theorem triangleRegion_scaled : triangleRegion (k * side) = (triangleRegion side).scaled k := by
  refine Region.eq_scaled ?_ ?_ ?_ <;> simp only [triangleRegion] <;> ring

theorem solo_scaled (shape : Shape) : shape.solo (k * side) = (shape.solo side).scaled k := by
  refine congrArg₂ SoloPlan.mk (border_scaled k side shape) ?_
  rcases shape with _ | _ | t
  · exact spellRegion_scaled k side
  · exact inset_zero_scaled k side
  · exact triangleRegion_scaled k side

theorem spellPair_scaled : spellPair (k * side) = (spellPair side).scaled k := by
  refine PairPlan.eq_scaled (border_scaled k side .spell) (Segment.eq_scaled ?_ ?_ ?_ ?_)
    (Region.eq_scaled ?_ ?_ ?_) (Region.eq_scaled ?_ ?_ ?_) <;> simp only [spellPair] <;> ring

theorem unitPair_scaled : unitPair (k * side) = (unitPair side).scaled k := by
  have hzero := (mul_num_zero k).symm
  have hdivider : (unitPair (k * side)).divider = (unitPair side).divider.scaled k :=
    Segment.eq_scaled hzero rfl rfl hzero
  refine PairPlan.eq_scaled (border_scaled k side .unit) hdivider ?_ ?_
  · simp only [unitPair, mul_half, inset_zero_scaled]
  · simp only [unitPair, mul_half, inset_scaled]

theorem trianglePair_scaled (t : Triangle) :
    trianglePair t (k * side) = (trianglePair t side).scaled k := by
  -- The width is a length less an area divided by a length: a third of the side.
  refine PairPlan.eq_scaled (border_scaled k side (.triangle t)) (Segment.eq_scaled ?_ ?_ ?_ ?_)
    (Region.eq_scaled ?_ ?_ ?_) (Region.eq_scaled ?_ ?_ ?_) <;>
      simp only [trianglePair, Scalar.num_real, Nat.cast_ofNat, Nat.cast_zero, trianglePair_width] <;>
      ring

theorem pair_scaled (shape : Shape) : shape.pair (k * side) = (shape.pair side).scaled k := by
  rcases shape with _ | _ | t
  · exact spellPair_scaled k side
  · exact unitPair_scaled k side
  · exact trianglePair_scaled k side t

end Shape

namespace Frame

theorem translate_scaled (t : Frame ℝ) (x y : ℝ) :
    (t.scaled k).translate (k * x) (k * y) = (t.translate x y).scaled k := by
  refine Frame.ext rfl rfl rfl rfl ?_ ?_ <;> simp only [translate, comp, translation, scaled] <;> ring

theorem rotate_scaled (t : Frame ℝ) (radians : ℝ) :
    (t.scaled k).rotate radians = (t.rotate radians).scaled k := by
  refine Frame.ext rfl rfl rfl rfl ?_ ?_ <;> simp [rotate, comp, rotation, scaled]

theorem apply_origin_scaled (t : Frame ℝ) :
    (t.scaled k).apply Point.origin = (t.apply Point.origin).scaled k := by
  refine Point.ext ?_ ?_ <;> simp [apply, scaled, Point.scaled, Point.origin]

theorem identity_scaled : (identity : Frame ℝ).scaled k = identity := by
  refine Frame.ext rfl rfl rfl rfl ?_ ?_ <;> simp [identity, scaled]

end Frame

namespace Canvas

variable (c : Canvas ℝ)

theorem blank_scaled (limit : Option Nat) : (blank limit : Canvas ℝ).scaled k = blank limit := by
  simp [scaled, blank, Frame.identity_scaled]

/-- Each entry of a log does the same on the scaled canvas. -/
theorem apply_scaled (op : Op ℝ) : (c.scaled k).apply (op.scaled k) = (c.apply op).scaled k := by
  rcases op with _ | _ | ⟨x, y⟩ | radians | m
  case save => simp [apply, save, record, scaled, Op.scaled]
  case restore =>
    rcases hsaved : c.saved with _ | ⟨frame, saved⟩ <;>
      simp [apply, restore, record, scaled, Op.scaled, hsaved]
  case translate => simp [apply, translate, record, scaled, Op.scaled, Frame.translate_scaled]
  case rotate => simp [apply, rotate, record, scaled, Op.scaled, Frame.rotate_scaled]
  case mark => simp [apply, record, scaled, Op.scaled]

theorem translate_scaled (x y : ℝ) :
    (c.scaled k).translate (k * x) (k * y) = (c.translate x y).scaled k :=
  c.apply_scaled (.translate x y)

theorem rotateAboutCentre_scaled (side angle : ℝ) :
    (c.scaled k).rotateAboutCentre (k * side) angle = (c.rotateAboutCentre side angle).scaled k := by
  have hrotate : ∀ c : Canvas ℝ, (c.scaled k).rotate angle = (c.rotate angle).scaled k :=
    fun c => c.apply_scaled (.rotate angle)
  simp only [rotateAboutCentre, mul_half, ← mul_neg, translate_scaled, hrotate]

theorem enter_scaled (shape : Shape) (side : ℝ) :
    shape.enter (k * side) (c.scaled k) = (shape.enter side c).scaled k := by
  rcases shape with _ | _ | t
  · simp only [Shape.enter, mul_half, translate_scaled]
  · rfl
  · exact c.rotateAboutCentre_scaled side t.angle

theorem enterRegion_scaled (shape : Shape) (region : Region ℝ) :
    shape.enterRegion (region.scaled k) (c.scaled k) = (shape.enterRegion region c).scaled k := by
  have hmove := c.translate_scaled (k := k) region.corner.x region.corner.y
  rcases shape with _ | _ | t
  · exact hmove
  · exact hmove
  · exact (congrArg (rotateAboutCentre · _ _) hmove).trans (rotateAboutCentre_scaled ..)

theorem glyphMark_scaled (strokes : Nat) (size : ℝ) :
    (c.scaled k).glyphMark strokes (k * size) = (c.glyphMark strokes size).scaled k := by
  rw [glyphMark, glyphMark, Mark.scaled, ← Frame.apply_origin_scaled]
  rfl

theorem stroke_scaled (m : Mark ℝ) :
    (c.scaled k).stroke (m.scaled k) = (c.stroke m).map (Canvas.scaled k) := by
  have hmark := c.apply_scaled (k := k) (.mark m)
  have haccepts : (c.scaled k).accepts = c.accepts := rfl
  unfold stroke
  rw [haccepts]
  split
  · exact congrArg Except.ok hmark
  · rfl

end Canvas

end MagicCircle
