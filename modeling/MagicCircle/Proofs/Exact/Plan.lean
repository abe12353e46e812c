import Mathlib.Analysis.Convex.Basic
import MagicCircle.Proofs.Exact.Frame

/-!
# Plans fit their squares

In a shape's own frame, the border and the dividing line lie in the shape's square, every region is
inside the border, at most four fifths as large as the square, and two regions lie on opposite sides
of the line.
-/

namespace MagicCircle

/-- The region is inside the border of a shape of the given side. -/
structure Region.Fits (r : Region ℝ) (border : Border ℝ) (side : ℝ) : Prop where
  pos : 0 < r.size
  le : r.size ≤ 4 / 5 * side
  inside : r.points ⊆ border.area

theorem Segment.points_subset {l : Segment ℝ} {r : Region ℝ} (h : l.start ∈ r.points)
    (h' : l.finish ∈ r.points) : l.points ⊆ r.points := by
  rintro p ⟨t, ⟨ht, ht'⟩, hx, hy⟩
  refine ⟨?_, ?_⟩
  · rw [hx]
    exact convex_Icc _ _ h.1 h'.1 (sub_nonneg.2 ht') ht (sub_add_cancel ..)
  · rw [hy]
    exact convex_Icc _ _ h.2 h'.2 (sub_nonneg.2 ht') ht (sub_add_cancel ..)

theorem outline_subset {corners : List (Point ℝ)} {r : Region ℝ} (h : ∀ p ∈ corners, p ∈ r.points) :
    outline corners ⊆ r.points := by
  rintro p ⟨l, hl, hp⟩
  obtain ⟨i, hi, rfl⟩ := List.mem_iff_getElem.1 hl
  rw [List.getElem_zipWith] at hp
  refine Segment.points_subset (h _ (List.getElem_mem _)) (h _ ?_) hp
  exact List.mem_rotate.1 (List.getElem_mem _)

theorem Border.mem_area_circle {p : Point ℝ} {m radius : ℝ} (hx : |p.x| ≤ m) (hy : |p.y| ≤ m)
    (h : 2 * m ^ 2 ≤ radius ^ 2) : p ∈ (circle Point.origin radius).area := by
  have hx' := sq_le_sq' (abs_le.1 hx).1 (abs_le.1 hx).2
  have hy' := sq_le_sq' (abs_le.1 hy).1 (abs_le.1 hy).2
  simp only [area, Set.mem_ofPred_eq, Point.origin, Scalar.num_real, Nat.cast_zero, sub_zero]
  linarith

theorem Region.subset_circle {r : Region ℝ} {m radius : ℝ} (hx : -m ≤ r.corner.x)
    (hx' : r.corner.x + r.size ≤ m) (hy : -m ≤ r.corner.y) (hy' : r.corner.y + r.size ≤ m)
    (h : 2 * m ^ 2 ≤ radius ^ 2) : r.points ⊆ (Border.circle Point.origin radius).area := by
  rintro p ⟨⟨h₁, h₂⟩, h₃, h₄⟩
  exact Border.mem_area_circle (abs_le.2 ⟨by linarith, by linarith⟩)
    (abs_le.2 ⟨by linarith, by linarith⟩) h

namespace Shape

variable {side : ℝ}

/-- A triangle stands on one side of its square and reaches up to the middle of the other. -/
theorem mem_area_triangle (t : Triangle) {p : Point ℝ} (hside : 0 < side) (h : 0 ≤ p.y)
    (left : p.y ≤ 2 * p.x) (right : p.y ≤ 2 * (side - p.x)) :
    p ∈ ((triangle t).border side).area := by
  refine ⟨(2 * (side - p.x) - p.y) / (2 * side), (2 * p.x - p.y) / (2 * side), p.y / side,
    ?_, ?_, div_nonneg h hside.le, ?_, ?_, ?_⟩
  · exact div_nonneg (by linarith) (by linarith)
  · exact div_nonneg (by linarith) (by linarith)
  · field_simp
    ring
  all_goals
    simp only [Scalar.num_real, Nat.cast_ofNat, Nat.cast_zero]
    field_simp
    ring

theorem subset_triangle (t : Triangle) {r : Region ℝ} (hside : 0 < side) (h : 0 ≤ r.corner.y)
    (left : r.corner.y + r.size ≤ 2 * r.corner.x)
    (right : r.corner.y + r.size ≤ 2 * (side - (r.corner.x + r.size))) :
    r.points ⊆ ((triangle t).border side).area := by
  rintro p ⟨⟨h₁, h₂⟩, h₃, h₄⟩
  exact mem_area_triangle t hside (by linarith) (by linarith) (by linarith)

theorem subset_unit {r : Region ℝ} (hx : 0 ≤ r.corner.x) (hx' : r.corner.x + r.size ≤ side)
    (hy : 0 ≤ r.corner.y) (hy' : r.corner.y + r.size ≤ side) :
    r.points ⊆ (unit.border side).area := by
  have h0 : (Scalar.num 0 : ℝ) = 0 := Nat.cast_zero
  rintro p ⟨⟨h₁, h₂⟩, h₃, h₄⟩
  refine ⟨⟨?_, ?_⟩, ?_, ?_⟩ <;> simp only [Point.origin, h0] <;> linarith

theorem border_points (shape : Shape) (h : 0 ≤ side) :
    (shape.border side).mark.points ⊆ (shape.home side).points := by
  rcases shape with _ | _ | t
  case spell =>
    rintro _ ⟨angle, -, rfl⟩
    have hr : 0 ≤ side / 2 := by linarith
    rw [home, Region.mem_points_about]
    simp only [Point.origin, Scalar.num_real, Nat.cast_ofNat, Nat.cast_zero, zero_add, sub_zero,
      abs_mul, abs_of_nonneg hr]
    exact ⟨mul_le_of_le_one_right hr (Real.abs_cos_le_one _),
      mul_le_of_le_one_right hr (Real.abs_sin_le_one _)⟩
  case unit =>
    refine outline_subset ?_
    simp [home, Region.points, Point.origin, h]
  case triangle =>
    refine outline_subset ?_
    have hhalf : 0 ≤ side / 2 ∧ side / 2 ≤ side := ⟨by linarith, by linarith⟩
    simp [home, Region.points, Point.origin, h, hhalf]

theorem border_area (shape : Shape) (h : 0 ≤ side) :
    (shape.border side).area ⊆ (shape.home side).points := by
  rcases shape with _ | _ | t
  case spell =>
    intro p hp
    have hr : 0 ≤ side / 2 := by linarith
    have hp' : p.x ^ 2 + p.y ^ 2 ≤ (side / 2) ^ 2 := by
      simpa [border, Border.area, Point.origin] using hp
    rw [home, Region.mem_points_about]
    simp only [Point.origin, Scalar.num_real, Nat.cast_zero, sub_zero]
    exact ⟨abs_le_of_sq_le_sq (by linarith [sq_nonneg p.y]) hr,
      abs_le_of_sq_le_sq (by linarith [sq_nonneg p.x]) hr⟩
  case unit => exact subset_rfl
  case triangle =>
    rintro p ⟨u, v, w, hu, hv, hw, hsum, hx, hy⟩
    simp only [Scalar.num_real, Nat.cast_ofNat, Nat.cast_zero] at hx hy
    have hv' := mul_nonneg hv h
    have hw' := mul_nonneg hw h
    have hu' := mul_nonneg hu h
    have hsum' : u * side + v * side + w * side = side := by
      rw [← add_mul, ← add_mul, hsum, one_mul]
    simp only [home, Region.points, Point.origin, Scalar.num_real, Nat.cast_zero,
      Set.mem_ofPred_eq, Set.mem_Icc, zero_add, hx, hy]
    refine ⟨⟨?_, ?_⟩, ?_, ?_⟩ <;> linarith

theorem divider_points (shape : Shape) (h : 0 ≤ side) :
    (shape.pair side).divider.points ⊆ (shape.home side).points := by
  rcases shape with _ | _ | t
  case spell =>
    have hr : 0 ≤ side / 2 := by linarith
    have hcos : |(Scalar.cosEighth : ℝ)| ≤ 1 := Real.abs_cos_le_one _
    refine Segment.points_subset ?_ ?_ <;> rw [home, Region.mem_points_about]
    all_goals
      simpa [pair, spellPair, Point.origin, Scalar.sinEighth_real, abs_mul, abs_of_nonneg hr]
        using mul_le_of_le_one_left hr hcos
  case unit =>
    refine Segment.points_subset ?_ ?_ <;>
      simp [pair, unitPair, home, Region.points, Point.origin, h]
  case triangle =>
    have hhalf : 0 ≤ side / 2 ∧ side / 2 ≤ side := ⟨by linarith, by linarith⟩
    refine Segment.points_subset ?_ ?_ <;>
      simp [pair, trianglePair, home, Region.points, Point.origin, h, hhalf]

/-- The square inscribed in a spell's circle has half the area of the spell's own. -/
theorem cosEighth_mul (h : 0 < side) : 0 < (Scalar.cosEighth : ℝ) * side ∧
    (Scalar.cosEighth : ℝ) * side ≤ side ∧ ((Scalar.cosEighth : ℝ) * side) ^ 2 = side ^ 2 / 2 := by
  refine ⟨mul_pos Scalar.cosEighth_real_pos h,
    mul_le_of_le_one_left h.le (Real.cos_le_one _), ?_⟩
  rw [mul_pow, Scalar.cosEighth_real_sq]
  ring

theorem spellRegion_fits (h : 0 < side) : (spellRegion side).Fits (spell.border side) side := by
  obtain ⟨hpos, hle, hsq⟩ := cosEighth_mul h
  simp only [spellRegion, border, Scalar.num_real, Scalar.margin_real, Scalar.fill_real,
    Nat.cast_ofNat]
  refine ⟨?_, ?_, Region.subset_circle (m := 2 / 5 * (Scalar.cosEighth * side)) ?_ ?_ ?_ ?_ ?_⟩
  case refine_7 =>
    rw [mul_pow, hsq]
    linarith [sq_nonneg side]
  all_goals
    simp only
    linarith

theorem spellPair_fits (h : 0 < side) : (spellPair side).first.Fits (spell.border side) side ∧
    (spellPair side).second.Fits (spell.border side) side := by
  obtain ⟨hpos, hle, hsq⟩ := cosEighth_mul h
  have hdisc : 2 * (9 / 20 * ((Scalar.cosEighth : ℝ) * side)) ^ 2 ≤ (side / 2) ^ 2 := by
    rw [mul_pow, hsq]
    linarith [sq_nonneg side]
  simp only [spellPair, border, Scalar.num_real, Scalar.margin_real, Scalar.fill_real,
    Nat.cast_ofNat]
  refine ⟨⟨?_, ?_, Region.subset_circle ?_ ?_ ?_ ?_ hdisc⟩,
    ⟨?_, ?_, Region.subset_circle ?_ ?_ ?_ ?_ hdisc⟩⟩
  all_goals
    simp only
    linarith

theorem inset_fits {x y width : ℝ} (hw : 0 < width) (hx : 0 ≤ x) (hx' : x + width ≤ side)
    (hy : 0 ≤ y) (hy' : y + width ≤ side) :
    (Region.inset x y width).Fits (unit.border side) side := by
  simp only [Region.inset, Scalar.margin_real, Scalar.fill_real]
  refine ⟨?_, ?_, subset_unit ?_ ?_ ?_ ?_⟩
  all_goals
    simp only
    linarith

theorem triangleRegion_fits (t : Triangle) (h : 0 < side) :
    (triangleRegion side).Fits ((triangle t).border side) side := by
  have hroot : 7 / 5 ≤ √(3 : ℝ) := Real.le_sqrt_of_sq_le (by norm_num)
  have hwidth : side * (1 - √3 / (√3 + 2)) = 2 * side / (√3 + 2) := by
    field_simp
    ring
  have hleft : side * √3 / (2 * √3 + 4) = (side - 2 * side / (√3 + 2)) / 2 := by
    field_simp
    ring
  simp only [triangleRegion, Scalar.num_real, Scalar.margin_real, Scalar.fill_real,
    Scalar.sqrt_real, Nat.cast_ofNat, Nat.cast_one, hwidth, hleft]
  have hpos : 0 < 2 * side / (√3 + 2) := by positivity
  have hle : 2 * side / (√3 + 2) ≤ 10 / 17 * side := by
    rw [div_le_iff₀ (by positivity)]
    nlinarith
  refine ⟨?_, ?_, subset_triangle t h ?_ ?_ ?_⟩
  all_goals
    simp only
    linarith

theorem trianglePair_width : side / 2 - side * side / (2 * side + 4 * side) = side / 3 := by
  rcases eq_or_ne side 0 with rfl | h
  · simp
  · field_simp
    ring

theorem trianglePair_fits (t : Triangle) (h : 0 < side) :
    (trianglePair t side).first.Fits ((triangle t).border side) side ∧
      (trianglePair t side).second.Fits ((triangle t).border side) side := by
  simp only [trianglePair, Scalar.num_real, Scalar.margin_real, Scalar.fill_real,
    Nat.cast_ofNat, Nat.cast_one, trianglePair_width]
  refine ⟨⟨?_, ?_, subset_triangle t h ?_ ?_ ?_⟩, ⟨?_, ?_, subset_triangle t h ?_ ?_ ?_⟩⟩
  all_goals
    simp only
    linarith

theorem solo_fits (shape : Shape) (h : 0 < side) :
    (shape.solo side).region.Fits (shape.border side) side := by
  rcases shape with _ | _ | t
  · exact spellRegion_fits h
  · exact inset_fits h (by simp) (by simp) (by simp) (by simp)
  · exact triangleRegion_fits t h

theorem pair_fits (shape : Shape) (h : 0 < side) :
    (shape.pair side).first.Fits (shape.border side) side ∧
      (shape.pair side).second.Fits (shape.border side) side := by
  rcases shape with _ | _ | t
  · exact spellPair_fits h
  · have hzero : (Scalar.num 0 : ℝ) = 0 := Nat.cast_zero
    have hhalf : side / Scalar.num 2 = side / 2 := rfl
    simp only [pair, unitPair, hzero, hhalf]
    exact ⟨inset_fits (by linarith) le_rfl (by linarith) le_rfl (by linarith),
      inset_fits (by linarith) (by linarith) (by linarith) (by linarith) (by linarith)⟩
  · exact trianglePair_fits t h

theorem spellPair_side (p : Point ℝ) :
    (spellPair side).divider.side p = Scalar.cosEighth * side * -(p.x + p.y) := by
  simp only [spellPair, Segment.side, Scalar.sinEighth_real, Scalar.num_real, Nat.cast_ofNat]
  ring

theorem unitPair_side (p : Point ℝ) :
    (unitPair side).divider.side p = side * (p.x + p.y - side) := by
  simp only [unitPair, Segment.side, Scalar.num_real, Nat.cast_zero]
  ring

theorem trianglePair_side (t : Triangle) (p : Point ℝ) :
    (trianglePair t side).divider.side p = side * (side / 2 - p.x) := by
  simp only [trianglePair, Segment.side, Scalar.num_real, Nat.cast_ofNat, Nat.cast_zero]
  ring

theorem pair_separates (shape : Shape) (h : 0 < side) :
    (shape.pair side).divider.Separates (shape.pair side).first.points
      (shape.pair side).second.points := by
  rintro p ⟨⟨-, hx⟩, -, hy⟩ p' ⟨⟨hx', -⟩, hy', -⟩
  rcases shape with _ | _ | t
  case spell =>
    obtain ⟨hpos, -, -⟩ := cosEighth_mul h
    rw [pair, spellPair_side, spellPair_side]
    simp only [pair, spellPair, Scalar.num_real, Scalar.margin_real, Scalar.fill_real,
      Nat.cast_ofNat] at hx hy hx' hy'
    have hp : 0 < -(p.x + p.y) := by linarith
    have hp' : -(p'.x + p'.y) < 0 := by linarith
    exact mul_neg_of_pos_of_neg (mul_pos hpos hp) (mul_neg_of_pos_of_neg hpos hp')
  case unit =>
    rw [pair, unitPair_side, unitPair_side]
    simp only [pair, unitPair, Region.inset, Scalar.num_real, Scalar.margin_real,
      Scalar.fill_real, Nat.cast_ofNat, Nat.cast_zero] at hx hy hx' hy'
    have hp : p.x + p.y - side < 0 := by linarith
    have hp' : 0 < p'.x + p'.y - side := by linarith
    exact mul_neg_of_neg_of_pos (mul_neg_of_pos_of_neg h hp) (mul_pos h hp')
  case triangle =>
    rw [pair, trianglePair_side, trianglePair_side]
    simp only [pair, trianglePair, trianglePair_width, Scalar.num_real, Scalar.margin_real,
      Scalar.fill_real, Nat.cast_ofNat, Nat.cast_one] at hx hx'
    have hp : 0 < side / 2 - p.x := by linarith
    have hp' : side / 2 - p'.x < 0 := by linarith
    exact mul_neg_of_pos_of_neg (mul_pos h hp) (mul_neg_of_pos_of_neg h hp')

end Shape

end MagicCircle
