import MagicCircle.Exact.Picture

/-!
# Frames turned by quarter turns

A frame turned by quarter turns carries squares to upright squares (`QuarterTurned.image_points`)
and leaves points on their side of a line (`QuarterTurned.separates`). Every frame that a shape is
drawn in is such a frame (`Shape.enter_quarterTurned`), and its regions are entered upright
(`Shape.frame_enterRegion`): a frame that is turned about one point and turned back about another
has only been moved (`Frame.turnAbout_back`).
-/

namespace MagicCircle

open Scalar (num)

noncomputable def Region.centre (r : Region ℝ) : Point ℝ :=
  ⟨r.corner.x + r.size / num 2, r.corner.y + r.size / num 2⟩

/-- The upright square of the given size about a point. -/
noncomputable def Region.about (centre : Point ℝ) (size : ℝ) : Region ℝ :=
  ⟨⟨centre.x - size / num 2, centre.y - size / num 2⟩, size⟩

theorem Region.mem_points_about {centre : Point ℝ} {size : ℝ} {p : Point ℝ} :
    p ∈ (Region.about centre size).points ↔
      |p.x - centre.x| ≤ size / 2 ∧ |p.y - centre.y| ≤ size / 2 := by
  simp only [points, about, Set.mem_ofPred_eq, Set.mem_Icc, abs_sub_le_iff, Scalar.num_real,
    Nat.cast_ofNat]
  constructor
  · rintro ⟨⟨h, h'⟩, k, k'⟩
    exact ⟨⟨by linarith, by linarith⟩, by linarith, by linarith⟩
  · rintro ⟨⟨h, h'⟩, k, k'⟩
    exact ⟨⟨by linarith, by linarith⟩, by linarith, by linarith⟩

theorem Region.about_centre (r : Region ℝ) : Region.about r.centre r.size = r := by
  simp [about, centre]

namespace Frame

/-- Where a square of the frame lies on the canvas, if the frame is turned by quarter turns. -/
noncomputable def square (t : Frame ℝ) (r : Region ℝ) : Region ℝ :=
  Region.about (t.apply r.centre) r.size

/-- The frame is neither stretched nor mirrored, and turned by quarter turns only. -/
structure QuarterTurned (t : Frame ℝ) : Prop where
  c : t.c = -t.b
  d : t.d = t.a
  unit : t.a ^ 2 + t.b ^ 2 = 1
  straight : t.a * t.b = 0

theorem abs_turned_le {a b x y m : ℝ} (unit : a ^ 2 + b ^ 2 = 1) (straight : a * b = 0)
    (hx : |x| ≤ m) (hy : |y| ≤ m) : |a * x + b * y| ≤ m := by
  obtain rfl | rfl := mul_eq_zero.1 straight
  · have hb : |b| = 1 := by rw [← sq_eq_sq₀ (abs_nonneg b) zero_le_one, sq_abs]; linarith
    rwa [zero_mul, zero_add, abs_mul, hb, one_mul]
  · have ha : |a| = 1 := by rw [← sq_eq_sq₀ (abs_nonneg a) zero_le_one, sq_abs]; linarith
    rwa [zero_mul, add_zero, abs_mul, ha, one_mul]

variable {t u : Frame ℝ}

theorem apply_x (t : Frame ℝ) (p : Point ℝ) : (t.apply p).x = t.a * p.x + t.c * p.y + t.e := rfl

theorem apply_y (t : Frame ℝ) (p : Point ℝ) : (t.apply p).y = t.b * p.x + t.d * p.y + t.f := rfl

namespace QuarterTurned

theorem comp (h : t.QuarterTurned) (h' : u.QuarterTurned) : (t.comp u).QuarterTurned := by
  refine ⟨?_, ?_, ?_, ?_⟩ <;> simp only [Frame.comp, h.c, h.d, h'.c, h'.d]
  · ring
  · ring
  · linear_combination (u.a ^ 2 + u.b ^ 2) * h.unit + h'.unit
  · linear_combination (u.a ^ 2 - u.b ^ 2) * h.straight + (t.a ^ 2 - t.b ^ 2) * h'.straight

theorem translation (x y : ℝ) : (Frame.translation x y).QuarterTurned := by
  refine ⟨?_, rfl, ?_, ?_⟩ <;> simp [Frame.translation]

theorem rotation (t : Triangle) : (Frame.rotation (t.angle : ℝ)).QuarterTurned := by
  refine ⟨rfl, rfl, Real.cos_sq_add_sin_sq _, ?_⟩
  rcases t <;> simp [Frame.rotation, Triangle.angle]

theorem image_points (h : t.QuarterTurned) (r : Region ℝ) :
    t.apply '' r.points = (t.square r).points := by
  have hr : r.points = (Region.about r.centre r.size).points := by rw [r.about_centre]
  have hb : t.a ^ 2 + (-t.b) ^ 2 = 1 := by rw [neg_sq]; exact h.unit
  have hab : t.a * -t.b = 0 := by rw [mul_neg, h.straight, neg_zero]
  ext p
  rw [hr, square, Region.mem_points_about]
  constructor
  · rintro ⟨p, hp, rfl⟩
    obtain ⟨hx, hy⟩ := Region.mem_points_about.1 hp
    have hx' := abs_turned_le hb hab hx hy
    have hy' := abs_turned_le ((add_comm ..).trans h.unit) ((mul_comm ..).trans h.straight) hx hy
    rw [apply_x, apply_x, apply_y, apply_y, h.c, h.d]
    refine ⟨?_, ?_⟩
    · convert hx' using 2; ring
    · convert hy' using 2; ring
  · rintro ⟨hx, hy⟩
    -- The point is turned back about the centre.
    have hx' := abs_turned_le h.unit h.straight hx hy
    have hy' := abs_turned_le ((add_comm ..).trans hb)
      (by rw [neg_mul, mul_comm, h.straight, neg_zero]) hx hy
    set x := p.x - (t.apply r.centre).x with hpx
    set y := p.y - (t.apply r.centre).y with hpy
    refine ⟨⟨r.centre.x + (t.a * x + t.b * y), r.centre.y + (-t.b * x + t.a * y)⟩, ?_, ?_⟩
    · rw [Region.mem_points_about]
      simpa using ⟨hx', by simpa using hy'⟩
    · have hpx' : p.x = x + (t.apply r.centre).x := by rw [hpx]; ring
      have hpy' : p.y = y + (t.apply r.centre).y := by rw [hpy]; ring
      ext
      · rw [hpx', apply_x, apply_x, h.c]
        linear_combination x * h.unit
      · rw [hpy', apply_y, apply_y, h.d]
        linear_combination y * h.unit

theorem side_carry (h : t.QuarterTurned) (l : Segment ℝ) (p : Point ℝ) :
    (t.carry l).side (t.apply p) = l.side p := by
  simp only [Segment.side, carry, apply_x, apply_y, h.c, h.d]
  linear_combination ((l.finish.x - l.start.x) * (p.y - l.start.y) -
    (l.finish.y - l.start.y) * (p.x - l.start.x)) * h.unit

theorem separates (h : t.QuarterTurned) {l : Segment ℝ} {A B : Set (Point ℝ)}
    (hl : l.Separates A B) : (t.carry l).Separates (t.apply '' A) (t.apply '' B) := by
  rintro _ ⟨p, hp, rfl⟩ _ ⟨p', hp', rfl⟩
  rw [h.side_carry, h.side_carry]
  exact hl p hp p' hp'

end QuarterTurned

/-- The frame turned about the point `(m, m)` of its own. -/
noncomputable def turnAbout (t : Frame ℝ) (m angle : ℝ) : Frame ℝ :=
  ((t.translate m m).rotate angle).translate (-m) (-m)

theorem turnAbout_apply_self (t : Frame ℝ) (m angle : ℝ) :
    (t.turnAbout m angle).apply ⟨m, m⟩ = t.apply ⟨m, m⟩ := by
  ext <;> simp only [turnAbout, translate, rotate, comp, apply, translation, rotation,
    Scalar.num_real, Nat.cast_one, Nat.cast_zero] <;> ring

/-- A frame that is turned about one point and turned back about another stands where the turn has
taken the second point. -/
theorem turnAbout_back (x y m angle u v m' : ℝ) :
    let turned := (translation x y).turnAbout m angle
    (turned.translate u v).turnAbout m' (-angle) =
      translation ((turned.apply ⟨u + m', v + m'⟩).x - m')
        ((turned.apply ⟨u + m', v + m'⟩).y - m') := by
  have hsq := Real.sin_sq_add_cos_sq angle
  ext <;> simp only [turnAbout, translation, translate, rotate, rotation, comp, apply,
    Scalar.num_real, Scalar.sin_real, Scalar.cos_real, Real.sin_neg, Real.cos_neg, Nat.cast_one,
    Nat.cast_zero]
  · linear_combination hsq
  · ring
  · ring
  · linear_combination hsq
  · linear_combination (-m') * hsq
  · linear_combination (-m') * hsq

theorem translation_translate (x y u v : ℝ) :
    (translation x y).translate u v = translation (x + u) (y + v) := by
  ext <;> simp [translation, translate, comp, add_comm]

theorem translation_apply (x y : ℝ) (p : Point ℝ) :
    (translation x y).apply p = ⟨x + p.x, y + p.y⟩ := by
  ext <;> simp [translation, apply, add_comm]

end Frame

theorem Segment.Separates.disjoint {l : Segment ℝ} {A B : Set (Point ℝ)} (h : l.Separates A B) :
    Disjoint A B :=
  Set.disjoint_left.2 fun p hp hp' => (mul_self_nonneg (l.side p)).not_gt (h p hp p hp')

theorem Canvas.frame_rotateAboutCentre (c : Canvas ℝ) (side angle : ℝ) :
    (c.rotateAboutCentre side angle).frame = c.frame.turnAbout (side / 2) angle := rfl

namespace Shape

/-- The square of a shape in the shape's own frame. -/
noncomputable def home (side : ℝ) : Shape → Region ℝ
  | spell => Region.about Point.origin side
  | _ => ⟨Point.origin, side⟩

variable {c c' : Canvas ℝ} {x y : ℝ}

theorem enter_quarterTurned (shape : Shape) (side : ℝ) (hc : c.frame = .translation x y) :
    (shape.enter side c).frame.QuarterTurned := by
  have h : c.frame.QuarterTurned := by
    rw [hc]
    exact .translation x y
  rcases shape with _ | _ | t
  · exact h.comp (.translation ..)
  · exact h
  · exact ((h.comp (.translation ..)).comp (.rotation t)).comp (.translation ..)

theorem square_enter (shape : Shape) (side : ℝ) (hc : c.frame = .translation x y) :
    (shape.enter side c).frame.square (shape.home side) = ⟨⟨x, y⟩, side⟩ := by
  rcases shape with _ | _ | t
  case triangle =>
    have hcentre : (home side (triangle t)).centre = ⟨side / 2, side / 2⟩ := by
      simp [home, Region.centre, Point.origin]
    rw [enter, Canvas.frame_rotateAboutCentre, Frame.square, hcentre, Frame.turnAbout_apply_self,
      hc, Frame.translation_apply]
    simp [home, Region.about]
  case spell =>
    simp [enter, Canvas.translate, hc, Frame.square, home, Region.about, Region.centre,
      Frame.translation_translate, Frame.translation_apply, Point.origin]
  case unit =>
    simp [enter, hc, Frame.square, home, Region.about, Region.centre, Frame.translation_apply,
      Point.origin]

theorem frame_enterRegion (shape : Shape) (side : ℝ) (region : Region ℝ)
    (hc : c.frame = .translation x y) (hc' : c'.frame = (shape.enter side c).frame) :
    (shape.enterRegion region c').frame =
      .translation ((shape.enter side c).frame.square region).corner.x
        ((shape.enter side c).frame.square region).corner.y := by
  rw [← hc']
  rcases shape with _ | _ | t
  -- A triangle's frame is turned about the centre of the shape and back about that of the region.
  case triangle =>
    have hturned : c'.frame = (Frame.translation x y).turnAbout (side / 2) t.angle := by
      rw [hc', enter, Canvas.frame_rotateAboutCentre, hc]
    have hback := Frame.turnAbout_back x y (side / 2) t.angle region.corner.x region.corner.y
      (region.size / 2)
    rw [← hturned] at hback
    exact hback
  all_goals
    simp [hc', enterRegion, enter, Canvas.translate, hc, Frame.square, Region.about,
      Region.centre, Frame.translation_translate, Frame.translation_apply, ← add_assoc]

end Shape
end MagicCircle
