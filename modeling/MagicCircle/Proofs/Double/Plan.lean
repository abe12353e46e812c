import MagicCircle.Drawing.Usable
import MagicCircle.Proofs.Double.Band

/-!
# Plans on doubles

In the plan of a shape, all coordinates are within two sides of the origin, and the regions are
between a quarter of the side and the side itself (`solo_bounded`, `pair_bounded`). The only scale
other than the side is its square, which a triangle with two components takes.
-/

namespace MagicCircle

open Double
open Scalar (num margin fill)

variable {side : Float} {k a b : ℚ} {x y width : Float}

/-- The numbers of the entry are finite, and its lengths stand for numbers up to that of the side. -/
structure Op.Measured (side : Float) (op : Op Float) : Prop where
  finite : ∀ x ∈ op.numbers, x.isFinite = true
  pos : ∀ x ∈ op.lengths, 0 < value x
  le : ∀ x ∈ op.lengths, value x ≤ value side

/-! ## Constants -/

theorem band_zero (k : ℚ) : Band k 0 0 (num 0) := by
  have hvalue : value (num 0) = 0 := by decide +kernel
  refine ⟨by decide, ?_, ?_⟩ <;> rw [hvalue, zero_mul]

theorem band_one : Band 1 1 1 (num 1) := ⟨by decide, by decide +kernel, by decide +kernel⟩

theorem band_two : Band 1 2 2 (num 2) := ⟨by decide, by decide +kernel, by decide +kernel⟩

theorem band_four : Band 1 4 4 (num 4) := ⟨by decide, by decide +kernel, by decide +kernel⟩

theorem band_margin : Band 1 0.09 0.11 (margin : Float) :=
  ⟨by decide, by decide +kernel, by decide +kernel⟩

theorem band_fill : Band 1 0.79 0.81 (fill : Float) :=
  ⟨by decide, by decide +kernel, by decide +kernel⟩

theorem band_cosEighth : Band 1 0.7 0.71 (Scalar.cosEighth : Float) :=
  ⟨by decide, by decide +kernel, by decide +kernel⟩

theorem band_sinEighth : Band 1 0.7 0.71 (Scalar.sinEighth : Float) :=
  ⟨by decide, by decide +kernel, by decide +kernel⟩

theorem band_root : Band 1 1.73 1.74 (Scalar.sqrt (num 3) : Float) :=
  ⟨by decide +kernel, by decide +kernel, by decide +kernel⟩

/-! ## Regions -/

/-- Both coordinates are within twice the scale. -/
structure Point.Bounded (k : ℚ) (p : Point Float) : Prop where
  x : Band k (-2) 2 p.x
  y : Band k (-2) 2 p.y

/-- The region is no larger than the scale, and not much smaller. -/
structure Region.Bounded (k : ℚ) (r : Region Float) : Prop where
  corner : r.corner.Bounded k
  size : Band k (1 / 4) 1 r.size

theorem band_mul_margin (hk : Scale k) (h : Band k 0.32 1 width) :
    Band k 0 0.2 (width * margin) :=
  h.mul_const hk band_margin (by norm_num) (by norm_num) (by decide +kernel)

theorem Region.Bounded.of_width (hk : Scale k) (h : Band k 0.32 1 width)
    (hx : Band k (-2) 2 x) (hy : Band k (-2) 2 y) : Region.Bounded k ⟨⟨x, y⟩, width * fill⟩ :=
  ⟨⟨hx, hy⟩, h.mul_const hk band_fill (by norm_num) (by norm_num) (by decide +kernel)⟩

theorem Region.inset_bounded (hk : Scale k) (h : Band k 0.32 1 width) (hx : Band k 0 1 x) :
    (Region.inset x x width).Bounded k := by
  have hcorner : Band k (-2) 2 (x + width * margin) :=
    hx.add hk (band_mul_margin hk h) (by decide +kernel)
  exact .of_width hk h hcorner hcorner

section Side

variable (h : Moderate side)
include h

theorem band_half : Band (value side) 0.499 0.501 (side / num 2) :=
  h.band.div_const h.scale band_two (by norm_num) (by norm_num) (by decide +kernel)

theorem spellRegion_bounded : (Shape.spellRegion side).Bounded (value side) := by
  have hk := h.scale
  have hradius := band_half h
  have hcos : Band (value side) 0.34 0.37 (Scalar.cosEighth * (side / num 2)) :=
    band_cosEighth.const_mul hk hradius (by norm_num) (by norm_num) (by decide +kernel)
  have hwidth : Band (value side) 0.32 1 (Scalar.cosEighth * (side / num 2) * num 2) :=
    hcos.mul_const hk band_two (by norm_num) (by norm_num) (by decide +kernel)
  have hhalf : Band (value side) 0.1 0.6 (Scalar.cosEighth * (side / num 2) * num 2 / num 2) :=
    hwidth.div_const hk band_two (by norm_num) (by norm_num) (by decide +kernel)
  have hoffset : Band (value side) (-2) 2 _ :=
    hhalf.sub hk (band_mul_margin hk hwidth) (by decide +kernel)
  exact .of_width hk hwidth hoffset.neg hoffset.neg

theorem triangleRegion_bounded : (Shape.triangleRegion side).Bounded (value side) := by
  have hk := h.scale
  have hroot : Band 1 1.73 1.74 (Scalar.sqrt (num 3)) := band_root
  have hsum : Band 1 3.7 3.8 (Scalar.sqrt (num 3) + num 2) :=
    hroot.add .one band_two (by decide +kernel)
  have hquot : Band 1 0.45 0.48 (Scalar.sqrt (num 3) / (Scalar.sqrt (num 3) + num 2)) :=
    hroot.div_const .one hsum (by norm_num) (by norm_num) (by decide +kernel)
  have hpart : Band 1 0.5 0.6 (num 1 - Scalar.sqrt (num 3) / (Scalar.sqrt (num 3) + num 2)) :=
    band_one.sub .one hquot (by decide +kernel)
  have hwidth : Band (value side) 0.32 1 _ :=
    h.band.mul_const hk hpart (by norm_num) (by norm_num) (by decide +kernel)
  have hupper : Band (value side) 1.7 1.8 (side * Scalar.sqrt (num 3)) :=
    h.band.mul_const hk hroot (by norm_num) (by norm_num) (by decide +kernel)
  have hdouble : Band 1 3.4 3.5 (num 2 * Scalar.sqrt (num 3)) :=
    band_two.const_mul .one hroot (by norm_num) (by norm_num) (by decide +kernel)
  have hlower : Band 1 7.3 7.6 (num 2 * Scalar.sqrt (num 3) + num 4) :=
    hdouble.add .one band_four (by decide +kernel)
  have hleft : Band (value side) 0.2 0.3 _ :=
    hupper.div_const hk hlower (by norm_num) (by norm_num) (by decide +kernel)
  have hmargin := band_mul_margin hk hwidth
  refine .of_width hk hwidth ?_ (hmargin.mono hk (by norm_num) (by norm_num))
  exact hleft.add hk hmargin (by decide +kernel)

theorem solo_bounded (shape : Shape) : (shape.solo side).region.Bounded (value side) := by
  rcases shape with _ | _ | _
  · exact spellRegion_bounded h
  · have hwidth := h.band.mono h.scale (by norm_num : (0.32 : ℚ) ≤ 1) le_rfl
    exact Region.inset_bounded h.scale hwidth ((band_zero _).mono h.scale le_rfl zero_le_one)
  · exact triangleRegion_bounded h

theorem spellPair_bounded : (Shape.spellPair side).first.Bounded (value side) ∧
    (Shape.spellPair side).second.Bounded (value side) := by
  have hk := h.scale
  have hwidth : Band (value side) 0.32 1 (Scalar.cosEighth * (side / num 2)) :=
    band_cosEighth.const_mul hk (band_half h) (by norm_num) (by norm_num) (by decide +kernel)
  have hmargin := band_mul_margin hk hwidth
  have hoffset : Band (value side) (-2) 2 _ := hwidth.sub hk hmargin (by decide +kernel)
  have hsecond : Band (value side) (-2) 2 _ := hmargin.mono hk (by norm_num) (by norm_num)
  exact ⟨.of_width hk hwidth hoffset.neg hoffset.neg, .of_width hk hwidth hsecond hsecond⟩

theorem unitPair_bounded : (Shape.unitPair side).first.Bounded (value side) ∧
    (Shape.unitPair side).second.Bounded (value side) := by
  have hk := h.scale
  have hhalf := band_half h
  have hwidth : Band (value side) 0.32 1 (side / num 2) :=
    hhalf.mono hk (by norm_num) (by norm_num)
  exact ⟨Region.inset_bounded hk hwidth ((band_zero _).mono hk le_rfl zero_le_one),
    Region.inset_bounded hk hwidth (hhalf.mono hk (by norm_num) (by norm_num))⟩

/-- The square of the side, divided by a multiple of the side. -/
theorem band_square_div : Band (value side) 0.166 0.168
    (side * side / (num 2 * side + num 4 * side)) := by
  have hk := h.scale
  have hsquare : Band (value side * value side) 0.999 1.001 (side * side) :=
    h.band.mul hk hk h.scale_mul_self h.band zero_le_one zero_le_one (by decide +kernel)
  have hdouble : Band (value side) 1.999 2.001 (num 2 * side) :=
    band_two.const_mul hk h.band (by norm_num) zero_le_one (by decide +kernel)
  have hfour : Band (value side) 3.999 4.001 (num 4 * side) :=
    band_four.const_mul hk h.band (by norm_num) zero_le_one (by decide +kernel)
  have hlower : Band (value side) 5.99 6.01 (num 2 * side + num 4 * side) :=
    hdouble.add hk hfour (by decide +kernel)
  have hself : value side * value side / value side = value side := mul_self_div_self _
  have hquot : Band (value side * value side / value side) 0.166 0.168 _ :=
    hsquare.div h.scale_mul_self hk (by rwa [hself]) hlower (by norm_num) (by norm_num)
      (by decide +kernel)
  rwa [hself] at hquot

theorem trianglePair_bounded (t : Triangle) :
    (Shape.trianglePair t side).first.Bounded (value side) ∧
      (Shape.trianglePair t side).second.Bounded (value side) := by
  have hk := h.scale
  have hmiddle := band_half h
  have hwidth : Band (value side) 0.32 1 (side / num 2 - _) :=
    hmiddle.sub hk (band_square_div h) (by decide +kernel)
  have hmargin := band_mul_margin hk hwidth
  have hlow : Band (value side) (-2) 2 _ := hmargin.mono hk (by norm_num) (by norm_num)
  have hrest : Band 1 0.8 1 (num 1 - margin) := band_one.sub .one band_margin (by decide +kernel)
  have hleft : Band (value side) 0.2 1.1 _ :=
    hwidth.mul_const hk hrest (by norm_num) (by norm_num) (by decide +kernel)
  have hfirst : Band (value side) (-2) 2 _ := hmiddle.sub hk hleft (by decide +kernel)
  have hsecond : Band (value side) (-2) 2 _ := hmiddle.add hk hmargin (by decide +kernel)
  exact ⟨.of_width hk hwidth hfirst hlow, .of_width hk hwidth hsecond hlow⟩

theorem pair_bounded (shape : Shape) : (shape.pair side).first.Bounded (value side) ∧
    (shape.pair side).second.Bounded (value side) := by
  rcases shape with _ | _ | t
  · exact spellPair_bounded h
  · exact unitPair_bounded h
  · exact trianglePair_bounded h t

/-! ## Strokes -/

theorem border_measured (shape : Shape) : Op.Measured side (.mark (shape.border side).mark) := by
  have hfinite := h.finite
  have hzero : (num 0 : Float).isFinite = true := by decide
  have hturn : (Scalar.turn : Float).isFinite = true := by decide
  have hhalf := band_half h
  have hpos := h.pos
  rcases shape with _ | _ | t
  · refine ⟨?_, ?_, ?_⟩
    · simp [Op.numbers, Shape.border, Border.mark, Mark.numbers, Point.numbers, Point.origin, hzero,
        hturn, hhalf.finite]
    · simp only [Op.lengths, Shape.border, Border.mark, Mark.lengths, List.mem_singleton, forall_eq]
      linarith [hhalf.low]
    · simp only [Op.lengths, Shape.border, Border.mark, Mark.lengths, List.mem_singleton, forall_eq]
      linarith [hhalf.high]
  · refine ⟨?_, ?_, ?_⟩ <;>
      simp [Op.numbers, Op.lengths, Shape.border, Border.mark, Mark.numbers, Mark.lengths,
        Point.numbers, Point.origin, hzero, hfinite, hpos]
  · refine ⟨?_, nofun, nofun⟩
    simp [Op.numbers, Shape.border, Border.mark, Mark.numbers, Point.numbers, hzero, hfinite,
      hhalf.finite]

theorem spellDivider_bounded : (Shape.spellPair side).divider.start.Bounded (value side) ∧
    (Shape.spellPair side).divider.finish.Bounded (value side) := by
  have hk := h.scale
  have hradius : Band (value side) (-0.6) 0.6 (side / num 2) :=
    (band_half h).mono hk (by norm_num) (by norm_num)
  have hmul {x : Float} (hx : Band 1 (-0.8) 0.8 x) : Band (value side) (-2) 2 (x * (side / num 2)) :=
    .mul_abs hk hx hradius (by decide +kernel)
  have hcos : Band 1 (-0.8) 0.8 (Scalar.cosEighth : Float) :=
    band_cosEighth.mono .one (by norm_num) (by norm_num)
  have hsin : Band 1 (-0.8) 0.8 (Scalar.sinEighth : Float) :=
    band_sinEighth.mono .one (by norm_num) (by norm_num)
  have hcos' := hcos.neg
  have hsin' := hsin.neg
  rw [neg_neg] at hcos' hsin'
  exact ⟨⟨hmul hcos, hmul hsin'⟩, ⟨hmul hcos', hmul hsin⟩⟩

theorem divider_bounded (shape : Shape) : (shape.pair side).divider.start.Bounded (value side) ∧
    (shape.pair side).divider.finish.Bounded (value side) := by
  have hk := h.scale
  have hzero : Band (value side) (-2) 2 (num 0) := (band_zero _).mono hk (by norm_num) two_pos.le
  have hside : Band (value side) (-2) 2 side := h.band.mono hk (by norm_num) one_le_two
  have hmiddle : Band (value side) (-2) 2 (side / num 2) :=
    (band_half h).mono hk (by norm_num) (by norm_num)
  rcases shape with _ | _ | t
  · exact spellDivider_bounded h
  · exact ⟨⟨hzero, hside⟩, ⟨hside, hzero⟩⟩
  · exact ⟨⟨hmiddle, hzero⟩, ⟨hmiddle, hside⟩⟩

theorem divider_measured (shape : Shape) : Op.Measured side (.mark (.line (shape.pair side).divider)) := by
  obtain ⟨hstart, hfinish⟩ := divider_bounded h shape
  refine ⟨?_, nofun, nofun⟩
  simp [Op.numbers, Mark.numbers, Point.numbers, hstart.x.finite, hstart.y.finite,
    hfinish.x.finite, hfinish.y.finite]

end Side

end MagicCircle
