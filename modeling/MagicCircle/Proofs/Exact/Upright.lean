import MagicCircle.Proofs.Exact.Frame

/-!
# Frames that are turned and turned back

Frames compose associatively (`Frame.comp_assoc`) and act on points one after the other
(`Frame.apply_comp`), so what is done inside a frame does not depend on where the frame stands. A
frame that is turned about one point and turned back about another has therefore only been moved,
whatever frame it is and by whatever angle (`Frame.turnAbout_turnAbout_neg`).
-/

namespace MagicCircle

open Scalar (num)

/-- The point turned about `m` by the angle that has the cosine `c` and the sine `s`. -/
noncomputable def Point.turned (p m : Point ℝ) (c s : ℝ) : Point ℝ :=
  ⟨m.x + (c * (p.x - m.x) - s * (p.y - m.y)), m.y + (s * (p.x - m.x) + c * (p.y - m.y))⟩

/-- Every pair that can be the cosine and the sine of an angle is. -/
theorem exists_cos_eq_sin_eq {c s : ℝ} (h : c ^ 2 + s ^ 2 = 1) :
    ∃ angle, Real.cos angle = c ∧ Real.sin angle = s := by
  have hnorm : ‖(⟨c, s⟩ : ℂ)‖ = 1 := by
    rw [← sq_eq_sq₀ (norm_nonneg _) zero_le_one, Complex.sq_norm, Complex.normSq_mk]
    linarith
  have hcos := Complex.norm_mul_cos_arg ⟨c, s⟩
  have hsin := Complex.norm_mul_sin_arg ⟨c, s⟩
  rw [hnorm, one_mul] at hcos hsin
  exact ⟨_, hcos, hsin⟩

namespace Frame

theorem comp_assoc (t u v : Frame ℝ) : (t.comp u).comp v = t.comp (u.comp v) := by
  ext <;> simp only [comp] <;> ring

theorem apply_comp (t u : Frame ℝ) (p : Point ℝ) : (t.comp u).apply p = t.apply (u.apply p) := by
  ext <;> simp only [comp, apply] <;> ring

theorem comp_translation_zero (t : Frame ℝ) : t.comp (translation 0 0) = t := by
  ext <;> simp [comp, translation]

theorem translate_comp (t u : Frame ℝ) (x y : ℝ) :
    (t.comp u).translate x y = t.comp (u.translate x y) := comp_assoc ..

theorem turnAbout_comp (t u : Frame ℝ) (m angle : ℝ) :
    (t.comp u).turnAbout m angle = t.comp (u.turnAbout m angle) := by
  simp only [turnAbout, translate, rotate, comp_assoc]

theorem apply_turnAbout (t : Frame ℝ) (m angle : ℝ) (p : Point ℝ) :
    (t.turnAbout m angle).apply p =
      t.apply (p.turned ⟨m, m⟩ (Real.cos angle) (Real.sin angle)) := by
  rw [← comp_translation_zero t, turnAbout_comp, apply_comp, apply_comp]
  congr 1
  ext <;> simp only [turnAbout, translate, rotate, comp, apply, translation, rotation, Point.turned,
    Scalar.num_real, Scalar.cos_real, Scalar.sin_real, Nat.cast_one, Nat.cast_zero] <;> ring

theorem apply_translate (t : Frame ℝ) (x y : ℝ) (p : Point ℝ) :
    (t.translate x y).apply p = t.apply ⟨x + p.x, y + p.y⟩ := by
  rw [translate, apply_comp, translation_apply]

/-- Turning about `(m, m)`, moving by `(x, y)` and turning back about `(n, n)` moves the frame so that
its point `(n, n)` comes to where the turn takes the point that is reached from it by the move. -/
theorem turnAbout_turnAbout_neg (t : Frame ℝ) (m angle x y n : ℝ) :
    let q := (⟨x + n, y + n⟩ : Point ℝ).turned ⟨m, m⟩ (Real.cos angle) (Real.sin angle)
    ((t.turnAbout m angle).translate x y).turnAbout n (-angle) = t.translate (q.x - n) (q.y - n) := by
  intro q
  have hback := turnAbout_back 0 0 m angle x y n
  have hq : ((translation 0 0).turnAbout m angle).apply ⟨x + n, y + n⟩ = q := by
    rw [apply_turnAbout, translation_apply]
    simp [q]
  calc ((t.turnAbout m angle).translate x y).turnAbout n (-angle)
      = t.comp ((((translation 0 0).turnAbout m angle).translate x y).turnAbout n (-angle)) := by
        rw [← turnAbout_comp, ← translate_comp, ← turnAbout_comp, comp_translation_zero]
    _ = t.translate (q.x - n) (q.y - n) := by
        rw [hback, hq]
        rfl

end Frame

namespace Canvas

variable {c s : ℝ}

/-- A frame that is turned about the centre of a square and then, inside a region, turned back about
the centre of the region, as it is for the components of a triangle, has been moved and neither
turned nor stretched, whatever frame it is. The centre of the region comes to where the turn takes
it. This is so for every angle, and so for every pair of a cosine and a sine. -/
theorem rotateAboutCentre_neg_upright (canvas : Canvas ℝ) (side : ℝ) (region : Region ℝ)
    (h : c ^ 2 + s ^ 2 = 1) :
    (∃ angle, Real.cos angle = c ∧ Real.sin angle = s) ∧
    ∀ angle, Real.cos angle = c → Real.sin angle = s →
      let turned := canvas.rotateAboutCentre side angle
      let inner := (turned.translate region.corner.x region.corner.y).rotateAboutCentre region.size
        (-angle)
      (inner.frame.a = canvas.frame.a ∧ inner.frame.b = canvas.frame.b ∧
        inner.frame.c = canvas.frame.c ∧ inner.frame.d = canvas.frame.d) ∧
      (∃ x y, inner.frame = canvas.frame.comp (.translation x y)) ∧
      inner.frame.apply ⟨region.size / 2, region.size / 2⟩ =
        canvas.frame.apply (region.centre.turned ⟨side / 2, side / 2⟩ c s) := by
  refine ⟨exists_cos_eq_sin_eq h, fun angle hc hs => ?_⟩
  intro turned inner
  have hinner : inner.frame = canvas.frame.translate _ _ :=
    Frame.turnAbout_turnAbout_neg canvas.frame (side / 2) angle region.corner.x region.corner.y
      (region.size / 2)
  refine ⟨?_, ⟨_, _, hinner⟩, ?_⟩
  · rw [hinner]
    simp [Frame.translate, Frame.comp, Frame.translation]
  · rw [hinner, Frame.apply_translate, hc, hs, sub_add_cancel, sub_add_cancel]
    rfl

/-- A sheared frame, turned by the angle of a right triangle with the sides three, four and five. -/
theorem rotateAboutCentre_neg_upright_sheared :
    let canvas : Canvas ℝ := ⟨#[], ⟨2, 1, 0, 3, 5, 7⟩, [], none, 0⟩
    (3 / 5 : ℝ) ^ 2 + (4 / 5) ^ 2 = 1 ∧ ∃ angle, Real.cos angle = 3 / 5 ∧ Real.sin angle = 4 / 5 ∧
      let turned := canvas.rotateAboutCentre 10 angle
      let inner := (turned.translate 1 2).rotateAboutCentre 4 (-angle)
      inner.frame.a = 2 ∧ inner.frame.b = 1 ∧ inner.frame.c = 0 ∧ inner.frame.d = 3 ∧
        inner.frame.apply ⟨2, 2⟩ = ⟨71 / 5, 20⟩ := by
  intro canvas
  have hunit : (3 / 5 : ℝ) ^ 2 + (4 / 5) ^ 2 = 1 := by norm_num
  obtain ⟨⟨angle, hc, hs⟩, hall⟩ := canvas.rotateAboutCentre_neg_upright 10 ⟨⟨1, 2⟩, 4⟩ hunit
  obtain ⟨⟨ha, hb, hc', hd⟩, -, hcentre⟩ := hall angle hc hs
  refine ⟨hunit, angle, hc, hs, ha, hb, hc', hd, ?_⟩
  have htwo : (4 / 2 : ℝ) = 2 := by norm_num
  rw [htwo] at hcentre
  refine hcentre.trans ?_
  ext <;> simp only [canvas, Frame.apply, Point.turned, Region.centre, Scalar.num_real] <;> norm_num

end Canvas

end MagicCircle
