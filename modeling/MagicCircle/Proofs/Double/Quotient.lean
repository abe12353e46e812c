import MagicCircle.Proofs.Double.Rounds
import Mathlib.Tactic.FieldSimp

/-!
# Errors of quotients

How far a rounded quotient is from the exact one when dividend and divisor are rounded themselves
(`quotient_error`, `Rounds.quotient_error`). Errors are counted in units of `1 / 2 ^ 53`, so that each
rounding adds a little more than one of them.
-/

namespace MagicCircle.Double

theorem tiny_le : tiny ≤ 1 / 2 ^ 60 := by
  have hpow : (2 : ℚ) ^ (-1074 : Int) ≤ 2 ^ (-60 : Int) := zpow_le_zpow_right₀ one_le_two (by decide)
  rw [tiny, one_div, ← zpow_natCast, ← zpow_neg]
  exact hpow

/-- From one on, rounding is a relative error of little more than one unit. -/
theorem Rounds.relative_error {x : Float} {z : ℚ} (h : Rounds x z) (hone : 1 ≤ z)
    (hz : z ≤ greatest) : |value x - z| ≤ z * (9 / 8 / 2 ^ 53) := by
  have herror := h.error hz
  have htiny := tiny_le
  norm_num at htiny herror ⊢
  linarith

theorem Rounds.one_le {x : Float} {z : ℚ} (h : Rounds x z) (hone : 1 ≤ z) (hz : z ≤ greatest) :
    1 ≤ value x := by
  have hrep : Representable 1 := by
    exact_mod_cast representable_nat (n := 1) (by decide)
  exact h.le_value hrep hone hz

/-- The error of a quotient whose dividend is off by `c` units and `s`, and whose divisor by `δ`. -/
theorem quotient_error {a u p b c s δ : ℚ} (hu : 0 ≤ u) (hb : 0 < b) (hc : 0 ≤ c) (hs : 0 ≤ s)
    (hδ : 0 ≤ δ) (hδ' : δ ≤ 1 / 2) (hp : |p - b| ≤ b * δ) (ha : |a - u| ≤ u * c + s) :
    |a / p - u / b| ≤ (u / b * (c + δ) + s / b) * (1 + 2 * δ) := by
  have hlow : b * (1 - δ) ≤ p := by
    have := (abs_le.1 hp).1
    linarith
  have hp0 : 0 < p := lt_of_lt_of_le (mul_pos hb (by linarith)) hlow
  have hcross : |a * b - u * p| ≤ (u * (c + δ) + s) * b := by
    calc |a * b - u * p| = |(a - u) * b - u * (p - b)| := by ring_nf
      _ ≤ |(a - u) * b| + |u * (p - b)| := abs_sub ..
      _ = |a - u| * b + u * |p - b| := by rw [abs_mul, abs_mul, abs_of_pos hb, abs_of_nonneg hu]
      _ ≤ (u * c + s) * b + u * (b * δ) :=
        add_le_add (mul_le_mul_of_nonneg_right ha hb.le) (mul_le_mul_of_nonneg_left hp hu)
      _ = (u * (c + δ) + s) * b := by ring
  have hinv : b ≤ p * (1 + 2 * δ) := by
    have hgain : 0 ≤ b * (δ * (1 - 2 * δ)) := mul_nonneg hb.le (mul_nonneg hδ (by linarith))
    calc b ≤ b + b * (δ * (1 - 2 * δ)) := le_add_of_nonneg_right hgain
      _ = b * (1 - δ) * (1 + 2 * δ) := by ring
      _ ≤ p * (1 + 2 * δ) := mul_le_mul_of_nonneg_right hlow (by linarith)
  have hnum : 0 ≤ u * (c + δ) + s := by positivity
  rw [div_sub_div _ _ hp0.ne' hb.ne', abs_div, abs_of_pos (mul_pos hp0 hb),
    div_le_iff₀ (mul_pos hp0 hb)]
  calc |a * b - p * u| ≤ (u * (c + δ) + s) * b := by rwa [mul_comm p u]
    _ ≤ (u * (c + δ) + s) * (p * (1 + 2 * δ)) := mul_le_mul_of_nonneg_left hinv hnum
    _ = (u / b * (c + δ) + s / b) * (1 + 2 * δ) * (p * b) := by
      field_simp

/-- Dividing by a rounded number and rounding adds little more than two units. -/
theorem Rounds.quotient_error {y : Float} {a u p b c s : ℚ} (hy : Rounds y (a / p))
    (hmost : a / p ≤ greatest) (hu : 0 ≤ u) (hb : 0 < b) (hc : 0 ≤ c) (hc' : c ≤ 8) (hs : 0 ≤ s)
    (hp : |p - b| ≤ b * (9 / 8 / 2 ^ 53)) (ha : |a - u| ≤ u * (c / 2 ^ 53) + s) :
    |value y - u / b| ≤ u / b * ((c + 9 / 4) / 2 ^ 53) + (9 / 8 * (s / b) + tiny / 2) := by
  have hexact := Double.quotient_error hu hb (by positivity) hs (by norm_num) (by norm_num) hp ha
  have hround := hy.error hmost
  have hv : 0 ≤ u / b := div_nonneg hu hb.le
  have ht : 0 ≤ s / b := div_nonneg hs hb.le
  generalize u / b = v at *
  generalize s / b = t at *
  generalize a / p = z at *
  have htotal : |value y - v| ≤ |value y - z| + |z - v| := abs_sub_le ..
  have hz := (abs_le.1 hexact).2
  have hunits : v * ((c + 9 / 8) * (1 + 5 / 2 ^ 53)) ≤ v * (c + 5 / 4) := by
    refine mul_le_mul_of_nonneg_left ?_ hv
    linarith
  have hunits' : 0 ≤ v * (c + 9 / 8) := by positivity
  norm_num at *
  linarith

end MagicCircle.Double
