import MagicCircle.Proofs.Double.Packing
import Mathlib.Data.Nat.Cast.Order.Field
import Mathlib.Tactic.Linarith
import Mathlib.Tactic.NormNum
import Mathlib.Tactic.Positivity
import Mathlib.Tactic.Ring

/-!
# Rounding

A mantissa and an exponent are shifted until the mantissa has 53 bits, or the exponent is the least,
and what is cut off is rounded (`roundWithAccuracy_eq`). So the result is near the exact one, as long
as that is not huge (`fits_roundWithAccuracy`).
-/

namespace MagicCircle.Double

open Float.Model Float.Model.UnpackedFloat

theorem targetExponent_eq (n : Int) :
    Format.binary64.targetExponent n = max (n - 53) (-1074) := rfl

theorem targetExponent_totalExponent (m : Nat) (e : Int) :
    Format.binary64.targetExponent (totalExponent m e) = max (m.log2 + e - 52) (-1074) := by
  rw [targetExponent_eq, totalExponent]
  omega

theorem mantissa_shiftRight (em : ExtendedMantissa) : ∀ k : Nat,
    (em >>> k).mantissa = em.mantissa / 2 ^ k
  | 0 => (Nat.div_one _).symm
  | k + 1 => by
    have ih := mantissa_shiftRight em k
    rw [Nat.pow_succ, ← Nat.div_div_eq_div_mul, ← ih]
    rfl

theorem mantissa_ofMantissaAndAccuracy (m : Nat) (acc : Accuracy) :
    (ExtendedMantissa.ofMantissaAndAccuracy m acc).mantissa = m := by
  rcases acc with _ | _ | _ | _ <;> rfl

/-- Rounding goes to the mantissa or to the next one. -/
theorem roundedMantissa_mem (em : ExtendedMantissa) :
    em.mantissa ≤ em.roundedMantissa ∧ em.roundedMantissa ≤ em.mantissa + 1 := by
  rcases em with ⟨m, _ | _, _ | _⟩ <;>
    simp only [ExtendedMantissa.roundedMantissa, ExtendedMantissa.accuracy,
      Accuracy.roundToNearestEven] <;> omega

/-- The mantissa and the exponent after the first shift. -/
theorem shiftToTargetExponent_eq {m : Nat} {e : Int} (acc : Accuracy)
    (h : 52 ≤ m.log2 ∨ e ≤ -1074) :
    ∃ k : Nat, shiftToTargetExponent Format.binary64 m e acc =
        (ExtendedMantissa.ofMantissaAndAccuracy m acc >>> k, e + k) ∧
      e + k = max ((m.log2 : Int) + e - 52) (-1074) := by
  refine ⟨_, rfl, ?_⟩
  rw [targetExponent_totalExponent]
  omega

theorem shiftToTargetExponent_small {r : Nat} {e : Int} (hr : r < 2 ^ 53) (he : -1074 ≤ e) :
    shiftToTargetExponent Format.binary64 r e .exact = (⟨r, false, false⟩, e) := by
  have hlog : r.log2 ≤ 52 := by
    rcases Nat.eq_zero_or_pos r with rfl | hpos
    · decide
    · have := (Nat.log2_lt hpos.ne').2 hr
      omega
  have hk : (Format.binary64.targetExponent (totalExponent r e) - e).toNat = 0 := by
    rw [targetExponent_totalExponent]
    omega
  unfold shiftToTargetExponent shiftToExponent
  dsimp only
  rw [hk]
  exact Prod.ext rfl (Int.add_zero e)

theorem shiftToTargetExponent_carry {e : Int} (he : -1074 ≤ e) :
    shiftToTargetExponent Format.binary64 (2 ^ 53) e .exact = (⟨2 ^ 52, false, false⟩, e + 1) := by
  have hk : (Format.binary64.targetExponent (totalExponent (2 ^ 53) e) - e).toNat = 1 := by
    rw [targetExponent_totalExponent, Nat.log2_two_pow]
    omega
  unfold shiftToTargetExponent shiftToExponent
  dsimp only
  rw [hk]
  rfl

theorem lt_of_log2_le {m k : Nat} (h : m.log2 ≤ 52 + k) : m / 2 ^ k < 2 ^ 53 := by
  refine (Nat.div_lt_iff_lt_mul (Nat.two_pow_pos k)).2 ?_
  rw [← Nat.pow_add]
  exact Nat.lt_of_lt_of_le Nat.lt_log2_self (Nat.pow_le_pow_right two_pos (by omega))

theorem le_of_log2_eq {m k : Nat} (hm : m ≠ 0) (h : m.log2 = 52 + k) : 2 ^ 52 ≤ m / 2 ^ k := by
  refine (Nat.le_div_iff_mul_le (Nat.two_pow_pos k)).2 ?_
  rw [← Nat.pow_add, ← h]
  exact Nat.log2_self_le hm

theorem roundWithAccuracy_eq_finiteOrZero (s : Sign) (m : Nat) (e : Int) (acc : Accuracy) :
    roundWithAccuracy Format.binary64 s m e acc =
      let first := shiftToTargetExponent Format.binary64 m e acc
      let last := shiftToTargetExponent Format.binary64 first.1.roundedMantissa first.2 .exact
      finiteOrZero s last.1.mantissa last.2 := rfl

theorem mantissa_shifted (m : Nat) (acc : Accuracy) (k : Nat) :
    (ExtendedMantissa.ofMantissaAndAccuracy m acc >>> k).mantissa = m / 2 ^ k := by
  rw [mantissa_shiftRight, mantissa_ofMantissaAndAccuracy]

/-- The mantissa is shifted, and rounded as its residual bits say. -/
theorem roundWithAccuracy_eq_rounded {s : Sign} {m : Nat} {e : Int} (acc : Accuracy)
    (h : 52 ≤ m.log2 ∨ e ≤ -1074) :
    ∃ k : Nat, e + k = max ((m.log2 : Int) + e - 52) (-1074) ∧
      roundWithAccuracy Format.binary64 s m e acc = rounded s
        (ExtendedMantissa.ofMantissaAndAccuracy m acc >>> k).roundedMantissa (e + k) := by
  obtain ⟨k, hshift, ht⟩ := shiftToTargetExponent_eq acc h
  refine ⟨k, ht, ?_⟩
  have hmantissa := mantissa_shifted m acc k
  generalize ExtendedMantissa.ofMantissaAndAccuracy m acc >>> k = em at hshift hmantissa ⊢
  obtain ⟨-, hhigh⟩ := roundedMantissa_mem em
  have hlt := lt_of_log2_le (m := m) (k := k) (by omega)
  rw [roundWithAccuracy_eq_finiteOrZero, hshift, rounded]
  dsimp only
  by_cases hr : em.roundedMantissa < 2 ^ 53
  · rw [shiftToTargetExponent_small hr (by omega), if_pos hr]
  · obtain hr' : em.roundedMantissa = 2 ^ 53 := by omega
    rw [if_neg hr, hr', shiftToTargetExponent_carry (by omega)]

theorem roundWithAccuracy_eq {s : Sign} {m : Nat} {e : Int} (acc : Accuracy)
    (h : 52 ≤ m.log2 ∨ e ≤ -1074) :
    ∃ r k t, CutTo m e r k t ∧ roundWithAccuracy Format.binary64 s m e acc = rounded s r t := by
  obtain ⟨k, ht, hround⟩ := roundWithAccuracy_eq_rounded (s := s) acc h
  have hmantissa := mantissa_shifted m acc k
  generalize ExtendedMantissa.ofMantissaAndAccuracy m acc >>> k = em at hmantissa hround
  obtain ⟨hlow, hhigh⟩ := roundedMantissa_mem em
  rw [hmantissa] at hlow hhigh
  have hlt := lt_of_log2_le (m := m) (k := k) (by omega)
  refine ⟨em.roundedMantissa, k, e + k, ⟨rfl, ht, hlow, hhigh, by omega, ?_⟩, hround⟩
  rw [or_iff_not_imp_right]
  intro hne
  have hlog : m.log2 = 52 + k := by omega
  have hm : m ≠ 0 := by
    rintro rfl
    rw [Nat.log2_zero] at hlog
    omega
  have := le_of_log2_eq hm hlog
  omega

theorem finiteOrZero_spec {s : Sign} {m : Nat} {e : Int} (hlt : m < 2 ^ 53)
    (hnormal : 2 ^ 52 ≤ m ∨ e = -1074) (hleast : -1074 ≤ e) (hmost : e ≤ 971) :
    let u := finiteOrZero s m e
    UnpackedFloat.unpack Format.binary64 (UnpackedFloat.pack Format.binary64 u) = u ∧
      u.isFinite = true ∧ ofUnpacked u = s.apply m * 2 ^ e := by
  by_cases hm : m = 0
  · subst hm
    have hu : finiteOrZero s 0 e = .zero s := dif_pos rfl
    rw [hu]
    refine ⟨?_, rfl, ?_⟩
    · rcases s with _ | _ <;> rfl
    · rw [ofUnpacked_zero]
      rcases s with _ | _ <;> simp [Sign.apply]
  · have hu : finiteOrZero s m e = .finite s m e (Nat.pos_of_ne_zero hm) := dif_neg hm
    rw [hu]
    exact ⟨unpack_pack s ⟨Nat.pos_of_ne_zero hm, hlt, hnormal, hleast, hmost⟩ _, rfl, rfl⟩

/-- What a rounded mantissa stands for, also when it was one bit too long. -/
theorem rounded_spec {s : Sign} {r : Nat} {t : Int} (hr : r ≤ 2 ^ 53)
    (hnormal : 2 ^ 52 ≤ r ∨ t = -1074) (hleast : -1074 ≤ t) (hmost : t ≤ 971)
    (hcarry : t = 971 → r < 2 ^ 53) :
    let u := rounded s r t
    UnpackedFloat.unpack Format.binary64 (UnpackedFloat.pack Format.binary64 u) = u ∧
      u.isFinite = true ∧ ofUnpacked u = s.apply r * 2 ^ t := by
  unfold rounded
  split_ifs with hlt
  · exact finiteOrZero_spec hlt hnormal hleast hmost
  · obtain rfl : r = 2 ^ 53 := by omega
    obtain ⟨hpack, hfinite, hvalue⟩ :=
      finiteOrZero_spec (s := s) (m := 2 ^ 52) (e := t + 1) (by omega) (.inl le_rfl) (by omega)
        (by omega)
    refine ⟨hpack, hfinite, hvalue.trans ?_⟩
    rcases s with _ | _ <;> simp only [Sign.apply] <;>
      rw [zpow_add_one₀ two_ne_zero] <;> push_cast <;> ring

theorem zpow_two_pos (e : Int) : (0 : ℚ) < 2 ^ e := zpow_pos two_pos e

theorem two_zpow_add (e : Int) (k : Nat) : (2 : ℚ) ^ (e + k) = 2 ^ e * 2 ^ k := by
  rw [zpow_add₀ two_ne_zero, zpow_natCast]

/-- A mantissa cut off and the next one are both within one unit of what was cut. -/
theorem error_of_floor {m r k : Nat} {z : ℚ} (hr : m / 2 ^ k ≤ r) (hr' : r ≤ m / 2 ^ k + 1)
    (hz : (m : ℚ) ≤ z) (hz' : z ≤ m + 1) : |r * 2 ^ k - z| ≤ 2 ^ k := by
  have hlow : m / 2 ^ k * 2 ^ k ≤ m := Nat.div_mul_le_self ..
  have hhigh : m + 1 ≤ (m / 2 ^ k + 1) * 2 ^ k := by
    have := Nat.lt_div_mul_add (a := m) (Nat.two_pow_pos k)
    rw [Nat.add_mul, Nat.one_mul]
    omega
  have h₁ : r * 2 ^ k ≤ m + 2 ^ k := by
    have := Nat.mul_le_mul_right (2 ^ k) hr'
    rw [Nat.add_mul, Nat.one_mul] at this
    omega
  have h₂ : m + 1 ≤ r * 2 ^ k + 2 ^ k := by
    have := Nat.mul_le_mul_right (2 ^ k) hr
    rw [Nat.add_mul, Nat.one_mul] at hhigh
    omega
  have h₁' : (r : ℚ) * 2 ^ k ≤ m + 2 ^ k := by exact_mod_cast h₁
  have h₂' : (m : ℚ) + 1 ≤ r * 2 ^ k + 2 ^ k := by exact_mod_cast h₂
  rw [abs_le]
  constructor <;> linarith

theorem apply_mul (s : Sign) (r : Nat) : ((s.apply r : Int) : ℚ) = s.apply 1 * r := by
  rcases s with _ | _ <;> simp [Sign.apply]

theorem abs_apply_one (s : Sign) : |((s.apply 1 : Int) : ℚ)| = 1 := by
  rcases s with _ | _ <;> simp [Sign.apply]

theorem abs_apply_mul (s : Sign) {z : ℚ} (hz : 0 ≤ z) : |((s.apply 1 : Int) : ℚ) * z| = z := by
  rw [abs_mul, abs_apply_one, one_mul, abs_of_nonneg hz]

/-- The leading bit of a mantissa is a bound from below. -/
theorem zpow_log2_le {m : Nat} (hm : m ≠ 0) (e : Int) : (2 : ℚ) ^ (m.log2 + e) ≤ m * 2 ^ e := by
  rw [zpow_add₀ two_ne_zero, zpow_natCast]
  refine mul_le_mul_of_nonneg_right ?_ (zpow_two_pos e).le
  exact_mod_cast Nat.log2_self_le hm

/-- The unit in the last place is small against the number, or the least there is. -/
theorem ulp_le {m : Nat} {e : Int} {z : ℚ} (h : 52 ≤ m.log2 ∨ e ≤ -1074) (hlow : m * 2 ^ e ≤ z) :
    (2 : ℚ) ^ max ((m.log2 : Int) + e - 52) (-1074) ≤ z / 2 ^ 52 + tiny := by
  have hz : 0 ≤ z := le_trans (mul_nonneg m.cast_nonneg (zpow_two_pos e).le) hlow
  have hz' : 0 ≤ z / 2 ^ 52 := by positivity
  rcases Nat.eq_zero_or_pos m with rfl | hm
  · have hlog := Nat.log2_zero
    rw [max_eq_right (by omega)]
    exact le_add_of_nonneg_left hz'
  · have hcut : (2 : ℚ) ^ (m.log2 + e - 52) ≤ z / 2 ^ 52 := by
      rw [zpow_sub₀ two_ne_zero]
      exact div_le_div_of_nonneg_right ((zpow_log2_le hm.ne' e).trans hlow) (by positivity)
    rcases max_choice ((m.log2 : Int) + e - 52) (-1074) with hmax | hmax <;> rw [hmax]
    · exact hcut.trans (le_add_of_nonneg_right (zpow_two_pos (-1074)).le)
    · exact le_add_of_nonneg_left hz'

/-- What cutting off a mantissa leaves is within one unit in the last place, also of a number between
two mantissas. -/
theorem CutTo.error {m r k : Nat} {e t : Int} {z : ℚ} (h : CutTo m e r k t) (hlow : m * 2 ^ e ≤ z)
    (hhigh : z ≤ (m + 1) * 2 ^ e) : |r * (2 : ℚ) ^ t - z| ≤ 2 ^ t := by
  have hpos := zpow_two_pos e
  have hfloor := error_of_floor h.low h.high ((le_div_iff₀ hpos).2 hlow) ((div_le_iff₀ hpos).2 hhigh)
  have hunits : r * (2 : ℚ) ^ t - z = (r * 2 ^ k - z / 2 ^ e) * 2 ^ e := by
    rw [h.exponent, two_zpow_add, sub_mul, div_mul_cancel₀ z hpos.ne']
    ring
  calc |r * (2 : ℚ) ^ t - z| = |r * 2 ^ k - z / 2 ^ e| * 2 ^ e := by
        rw [hunits, abs_mul, abs_of_pos hpos]
    _ ≤ 2 ^ k * 2 ^ e := mul_le_mul_of_nonneg_right hfloor hpos.le
    _ = 2 ^ t := by rw [h.exponent, two_zpow_add, mul_comm]

theorem fits_roundWithAccuracy {s : Sign} {m : Nat} {e : Int} {acc : Accuracy} {z : ℚ}
    (h : 52 ≤ m.log2 ∨ e ≤ -1074) (hlow : m * 2 ^ e ≤ z) (hhigh : z ≤ (m + 1) * 2 ^ e)
    (hz : z ≤ huge) :
    Fits (roundWithAccuracy Format.binary64 s m e acc) (s.apply 1 * z) := by
  obtain ⟨r, k, t, hcut, hround⟩ := roundWithAccuracy_eq (s := s) acc h
  have ht := hcut.target
  have hexp : (m.log2 : Int) + e ≤ 1022 := by
    rcases Nat.eq_zero_or_pos m with rfl | hm
    · rw [Nat.log2_zero] at h ⊢
      omega
    · exact (zpow_le_zpow_iff_right₀ (one_lt_two : (1 : ℚ) < 2)).1
        (((zpow_log2_le hm.ne' e).trans hlow).trans hz)
  obtain ⟨hpack, hfinite, hvalue⟩ :=
    rounded_spec (s := s) hcut.most hcut.normal_or_least (by omega) (by omega) (by omega)
  rw [hround]
  refine ⟨hpack, hfinite, ?_⟩
  have hz0 : 0 ≤ z := le_trans (mul_nonneg m.cast_nonneg (zpow_two_pos e).le) hlow
  rw [hvalue, abs_apply_mul s hz0, apply_mul, mul_assoc, ← mul_sub, abs_mul, abs_apply_one, one_mul]
  exact (hcut.error hlow hhigh).trans (ht ▸ ulp_le h hlow)

theorem log2_shiftLeft {m : Nat} (hm : m ≠ 0) (k : Nat) : (m <<< k).log2 = m.log2 + k := by
  rw [Nat.shiftLeft_eq, Nat.log2_eq_iff (by positivity), Nat.pow_add, Nat.add_right_comm, Nat.pow_add]
  exact ⟨Nat.mul_le_mul_right _ (Nat.log2_self_le hm),
    Nat.mul_lt_mul_of_pos_right Nat.lt_log2_self (Nat.two_pow_pos k)⟩

theorem shiftLeft_mul_zpow (m k : Nat) (e : Int) :
    ((m <<< k : Nat) : ℚ) * 2 ^ (e - k) = m * 2 ^ e := by
  have he : (2 : ℚ) ^ e = 2 ^ (e - k) * 2 ^ k := by rw [← two_zpow_add, Int.sub_add_cancel]
  rw [Nat.shiftLeft_eq, he]
  push_cast
  ring

theorem fits_round {m : Nat} (s : Sign) {e : Int} (hm : m ≠ 0)
    (hz : (m : ℚ) * 2 ^ e ≤ huge) :
    Fits (UnpackedFloat.round Format.binary64 s m e) (s.apply 1 * (m * 2 ^ e)) := by
  unfold UnpackedFloat.round decreaseExponent
  dsimp only
  rw [targetExponent_totalExponent]
  generalize hk : (e - max ((m.log2 : Int) + e - 52) (-1074)).toNat = k
  rw [← shiftLeft_mul_zpow m k e] at hz ⊢
  refine fits_roundWithAccuracy ?_ le_rfl ?_ hz
  · rw [log2_shiftLeft hm]
    omega
  · exact mul_le_mul_of_nonneg_right (by linarith) (zpow_two_pos _).le

theorem fits_zero (s : Sign) : Fits (.zero s) 0 := by
  refine ⟨?_, rfl, ?_⟩
  · rcases s with _ | _ <;> rfl
  · have htiny : 0 ≤ tiny := (zpow_two_pos (-1074)).le
    simpa using htiny

theorem normalize_apply (s : Sign) {n : Nat} (hn : n ≠ 0) (e : Int) (zero : Sign) :
    UnpackedFloat.normalize Format.binary64 (s.apply n) e zero =
      UnpackedFloat.round Format.binary64 s n e := by
  unfold UnpackedFloat.normalize
  rcases s with _ | _ <;> dsimp only [Sign.apply]
  · rw [Int.compare_eq_lt.2 (by omega), Int.neg_neg, Int.toNat_natCast]
  · rw [Int.compare_eq_gt.2 (by omega), Int.toNat_natCast]

theorem fits_normalize {m : Int} {e : Int} (zero : Sign)
    (hz : |(m : ℚ) * 2 ^ e| ≤ huge) :
    Fits (UnpackedFloat.normalize Format.binary64 m e zero) (m * 2 ^ e) := by
  by_cases hm : m = 0
  · subst hm
    rw [Int.cast_zero, zero_mul]
    exact fits_zero zero
  obtain ⟨s, n, hn, rfl⟩ : ∃ (s : Sign) (n : Nat), n ≠ 0 ∧ m = s.apply n := by
    rcases lt_or_gt_of_ne hm with hneg | hpos
    · exact ⟨.negative, (-m).toNat, by omega, by simp only [Sign.apply]; omega⟩
    · exact ⟨.positive, m.toNat, by omega, by simp only [Sign.apply]; omega⟩
  rw [apply_mul, mul_assoc] at hz ⊢
  rw [abs_apply_mul s (mul_nonneg n.cast_nonneg (zpow_two_pos e).le)] at hz
  rw [normalize_apply s hn]
  exact fits_round s hn hz

end MagicCircle.Double
