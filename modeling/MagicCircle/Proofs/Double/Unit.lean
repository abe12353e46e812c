import MagicCircle.Glyph.Drawable
import MagicCircle.Proofs.Double.Nonnegative

/-!
# Doubles from zero to one

Comparing a double with zero and with one says whether the number it stands for is between them
(`inUnit_iff`); in particular neither a NaN nor an infinity passes, and a negative zero does.
-/

namespace MagicCircle.Double

open Float.Model Float.Model.UnpackedFloat

theorem value_le_of_le {x y : Float} (hx : x.isFinite = true) (hy : y.isFinite = true)
    (hpos : 0 < value x) (hpos' : 0 < value y) (h : x ≤ y) : value x ≤ value y := by
  obtain ⟨m, e, hp, hu, hc, hv⟩ := positive_cases hx hpos
  obtain ⟨m', e', hp', hu', hc', hv'⟩ := positive_cases hy hpos'
  rw [le_iff_unpack, hu, hu'] at h
  change ((compare e e').then (compare m m')).isLE = true at h
  rw [hv, hv']
  rcases lt_trichotomy e e' with hlt | rfl | hlt
  · exact (hc.mul_zpow_lt hc' hlt).le
  · rw [Int.compare_eq_eq.2 rfl] at h
    have hm : (m : ℚ) ≤ m' := by exact_mod_cast Nat.isLE_compare.1 h
    exact mul_le_mul_of_nonneg_right hm (zpow_two_pos e).le
  · rw [Int.compare_eq_gt.2 hlt] at h
    cases h

theorem value_one : value 1 = 1 := by decide +kernel

theorem nonneg_iff {x : Float} (hx : x.isFinite = true) : 0 ≤ x ↔ 0 ≤ value x := by
  rw [nonneg_iff_unpack]
  obtain ⟨s, hu, hv⟩ | ⟨s, m, e, hp, hu, hc, hv⟩ := finite_cases hx <;> rw [hu, hv]
  · exact iff_of_true rfl le_rfl
  · have hpos : 0 < m * (2 : ℚ) ^ e := mul_pos (Nat.cast_pos.2 hp) (zpow_two_pos e)
    rcases s with _ | _
    · exact iff_of_false Bool.false_ne_true (by simpa [Sign.apply] using hpos)
    · exact iff_of_true rfl (by simpa [Sign.apply] using hpos.le)

/-- A double from zero to one is finite. -/
theorem isFinite_of_inUnit {x : Float} (hx : 0 ≤ x) (hx' : x ≤ 1) : x.isFinite = true := by
  change x.toModel.unpack.isFinite = true
  have hone : (1 : Float).toModel.unpack = .finite .positive (2 ^ 52) (-52) (by decide) := rfl
  rw [le_iff_unpack, hone] at hx'
  obtain h | ⟨s, h⟩ | ⟨m, e, hp, h⟩ := (nonneg_iff_unpack.1 hx).cases
  · rw [h] at hx'
    cases hx'
  · rw [h]
    rfl
  · rw [h]
    rfl

/-- A double that is not negative is a zero or stands for a positive number. -/
theorem zero_or_pos {x : Float} (hx : x.isFinite = true) (h : 0 ≤ value x) :
    (∃ s, x.toModel.unpack = .zero s ∧ value x = 0) ∨ 0 < value x := by
  obtain hzero | ⟨s, m, e, hp, hu, hc, hv⟩ := finite_cases hx
  · exact .inl hzero
  · have hpos : 0 < m * (2 : ℚ) ^ e := mul_pos (Nat.cast_pos.2 hp) (zpow_two_pos e)
    refine .inr ?_
    rw [← abs_of_nonneg h, hv, abs_apply_mul s hpos.le]
    exact hpos

theorem le_one_iff {x : Float} (hx : x.isFinite = true) (hnonneg : 0 ≤ value x) :
    x ≤ 1 ↔ value x ≤ 1 := by
  have hone : (1 : Float).isFinite = true := by decide
  obtain ⟨s, hu, hv⟩ | hpos := zero_or_pos hx hnonneg
  · rw [le_iff_unpack, hu, hv]
    exact iff_of_true rfl zero_le_one
  · refine ⟨fun h => ?_, fun h => ?_⟩
    · rw [← value_one]
      exact value_le_of_le hx hone hpos (by rw [value_one]; exact one_pos) h
    · exact le_of_value_le hx hone hpos (by rwa [value_one])

theorem inUnit_iff {x : Float} : inUnit x = true ↔ InUnit x := by
  unfold inUnit
  rw [Bool.and_eq_true, decide_eq_true_iff, decide_eq_true_iff]
  refine ⟨fun ⟨hx, hx'⟩ => ?_, fun h => ?_⟩
  · have hfinite := isFinite_of_inUnit hx hx'
    have hnonneg := (nonneg_iff hfinite).1 hx
    exact ⟨hfinite, hnonneg, (le_one_iff hfinite hnonneg).1 hx'⟩
  · exact ⟨(nonneg_iff h.finite).2 h.nonneg, (le_one_iff h.finite h.nonneg).2 h.le_one⟩

end MagicCircle.Double
