import MagicCircle.Double.Nearest
import MagicCircle.Proofs.Double.Operations

/-!
# Rounding goes to the nearest double

The residual bits that a mantissa is rounded by tell where the exact number lies (`Says`), and every
shift keeps that true (`Says.shiftRight`). So the result is the nearest mantissa
(`nearest_roundWithAccuracy`). It is at most half a unit away (`Nearest.error`), it does not jump over
a double (`Nearest.le_of_le`, `Nearest.le_of_ge`), and it is the double that the number reads as
(`Nearest.rounded_eq`).
-/

namespace MagicCircle.Double

open Float.Model Float.Model.UnpackedFloat

/-! ## Residual bits -/

/-- Where the number lies from a mantissa on, as an accuracy tells it. -/
def Says (acc : Accuracy) (m : Nat) (y : ℚ) : Prop :=
  match acc with
  | .exact => y = m
  | .inexact .lt => m < y ∧ y < m + 1 / 2
  | .inexact .eq => y = m + 1 / 2
  | .inexact .gt => m + 1 / 2 < y ∧ y < m + 1

namespace Says

variable {acc : Accuracy} {m : Nat} {y : ℚ}

theorem le (h : Says acc m y) : m ≤ y := by
  rcases acc with _ | _ | _ | _ <;> simp only [Says] at h <;> linarith

theorem lt (h : Says acc m y) : y < m + 1 := by
  rcases acc with _ | _ | _ | _ <;> simp only [Says] at h <;> linarith

theorem shiftRightOne {em : ExtendedMantissa} (h : Says em.accuracy em.mantissa y) :
    Says em.shiftRightOne.accuracy em.shiftRightOne.mantissa (y / 2) := by
  rcases em with ⟨m, b, s⟩
  have hsplit : (m : ℚ) = 2 * (m / 2 : Nat) + (m % 2 : Nat) := by
    exact_mod_cast (Nat.div_add_mod m 2).symm
  generalize hhalf : m / 2 = n at hsplit
  rcases Nat.mod_two_eq_zero_or_one m with hm | hm <;> rw [hm] at hsplit <;>
    rcases b with _ | _ <;> rcases s with _ | _ <;>
    simp only [Says, ExtendedMantissa.accuracy, ExtendedMantissa.shiftRightOne, hm, hhalf] at h ⊢ <;>
    norm_num at hsplit h ⊢ <;> grind

theorem shiftRight {em : ExtendedMantissa} (h : Says em.accuracy em.mantissa y) : ∀ k : Nat,
    Says (em >>> k).accuracy (em >>> k).mantissa (y / 2 ^ k)
  | 0 => by
    rw [pow_zero, div_one]
    exact h
  | k + 1 => by
    rw [pow_succ, ← div_div]
    exact (shiftRight h k).shiftRightOne

theorem ofMantissaAndAccuracy (h : Says acc m y) :
    Says (ExtendedMantissa.ofMantissaAndAccuracy m acc).accuracy
      (ExtendedMantissa.ofMantissaAndAccuracy m acc).mantissa y := by
  rcases acc with _ | _ | _ | _ <;> exact h

/-- The rounded mantissa is the nearest, and the even one of two. -/
theorem rounded {em : ExtendedMantissa} (h : Says em.accuracy em.mantissa y) :
    |em.roundedMantissa - y| ≤ 1 / 2 ∧
      (|em.roundedMantissa - y| = 1 / 2 → em.roundedMantissa % 2 = 0) := by
  rcases em with ⟨m, b, s⟩
  rcases b with _ | _ <;> rcases s with _ | _ <;>
    simp only [Says, ExtendedMantissa.accuracy, ExtendedMantissa.roundedMantissa,
      Accuracy.roundToNearestEven] at h ⊢
  case false.false =>
    rw [h, sub_self, abs_zero]
    norm_num
  case false.true =>
    rw [abs_sub_comm, abs_of_pos (by linarith)]
    exact ⟨by linarith, fun _ => by linarith⟩
  case true.false =>
    rw [h]
    rcases Nat.mod_two_eq_zero_or_one m with hm | hm <;> rw [hm] <;> push_cast
    · refine ⟨?_, fun _ => hm⟩
      rw [abs_le]
      constructor <;> linarith
    · refine ⟨?_, fun _ => by omega⟩
      rw [abs_le]
      constructor <;> linarith
  case true.true =>
    push_cast
    rw [abs_of_pos (by linarith)]
    exact ⟨by linarith, fun _ => by linarith⟩

end Says

/-! ## The nearest mantissa -/

theorem lt_two_zpow_log2 {m : Nat} {e : Int} {z : ℚ} (hz : z < (m + 1) * 2 ^ e) :
    z < 2 ^ (m.log2 + 1 + e) := by
  have hlt : (m : ℚ) + 1 ≤ 2 ^ (m.log2 + 1) := by exact_mod_cast Nat.lt_log2_self (n := m)
  rw [zpow_add₀ two_ne_zero]
  refine hz.trans_le (mul_le_mul_of_nonneg_right ?_ (zpow_two_pos e).le)
  exact_mod_cast hlt

/-- Rounding a mantissa of enough bits, with what it says of the exact number, goes to the nearest. -/
theorem nearest_roundWithAccuracy {s : Sign} {m : Nat} {e : Int} {acc : Accuracy} {z : ℚ}
    (hbits : 52 ≤ m.log2 ∨ e ≤ -1074) (hz : Says acc m (z / 2 ^ e)) :
    ∃ r t, Nearest z r t ∧ roundWithAccuracy Format.binary64 s m e acc = rounded s r t := by
  obtain ⟨k, ht, hround⟩ := roundWithAccuracy_eq_rounded (s := s) acc hbits
  have hpos := zpow_two_pos e
  have hlow : m * 2 ^ e ≤ z := (le_div_iff₀ hpos).1 hz.le
  have hhigh : z < (m + 1) * 2 ^ e := (div_lt_iff₀ hpos).1 hz.lt
  obtain ⟨hhalf, heven⟩ := (hz.ofMantissaAndAccuracy.shiftRight k).rounded
  rw [div_div, ← two_zpow_add] at hhalf heven
  generalize (ExtendedMantissa.ofMantissaAndAccuracy m acc >>> k).roundedMantissa = r at *
  have hunit := zpow_two_pos (e + k)
  have hscale : |(r : ℚ) * 2 ^ (e + k) - z| = |r - z / 2 ^ (e + k)| * 2 ^ (e + k) := by
    rw [← abs_of_pos hunit, ← abs_mul, abs_of_pos hunit, sub_mul, div_mul_cancel₀ z hunit.ne']
  refine ⟨r, e + k, ⟨(mul_nonneg m.cast_nonneg hpos.le).trans hlow, by omega, ?_, ?_, ?_, ?_⟩, hround⟩
  · rcases eq_or_ne m 0 with rfl | hm
    · rw [Nat.log2_zero] at hbits ht
      exact .inl (by omega)
    · rw [or_iff_not_imp_left]
      intro hne
      have hexp : e + (k : Int) + 52 = m.log2 + e := by omega
      rw [hexp]
      exact (zpow_log2_le hm e).trans hlow
  · refine (lt_two_zpow_log2 hhigh).trans_le (zpow_le_zpow_right₀ one_le_two ?_)
    omega
  · rw [hscale]
    have := mul_le_mul_of_nonneg_right hhalf hunit.le
    linarith
  · intro htie
    rw [hscale] at htie
    refine heven (mul_right_cancel₀ hunit.ne' ?_)
    linarith

theorem lt_of_zpow_le {a b : Int} {z : ℚ} (ha : (2 : ℚ) ^ a ≤ z) (hb : z < 2 ^ b) : a < b :=
  (zpow_lt_zpow_iff_right₀ (one_lt_two : (1 : ℚ) < 2)).1 (ha.trans_lt hb)

theorem greatest_lt : greatest < 2 ^ (1024 : Int) := by
  have hsplit : (2 : ℚ) ^ (1024 : Int) = 2 ^ (971 : Int) * 2 ^ 53 := two_zpow_add 971 53
  rw [greatest, hsplit, mul_comm]
  exact mul_lt_mul_of_pos_left (by norm_num) (zpow_two_pos 971)

theorem representable_greatest : Representable greatest := by
  refine ⟨2 ^ 53 - 1, 971, by decide, by decide, ?_⟩
  rw [greatest]
  norm_num

theorem representable_tiny : Representable tiny :=
  ⟨1, -1074, by decide, le_rfl, by rw [Nat.cast_one, one_mul, tiny]⟩

/-- A double is a whole number of units, unless it is below all numbers of that size. -/
theorem Representable.cases {v : ℚ} (hv : Representable v) (t : Int) :
    (∃ n : Nat, v = n * 2 ^ t) ∨ v < 2 ^ (t + 52) ∧ -1074 < t := by
  obtain ⟨m, e, hm, he, rfl⟩ := hv
  rcases le_or_gt t e with hle | hlt
  · obtain ⟨k, rfl⟩ := Int.le.dest hle
    refine .inl ⟨m * 2 ^ k, ?_⟩
    rw [two_zpow_add]
    push_cast
    ring
  · refine .inr ⟨?_, by omega⟩
    have hm' : (m : ℚ) < 2 ^ 53 := by exact_mod_cast hm
    calc m * (2 : ℚ) ^ e < 2 ^ 53 * 2 ^ e := mul_lt_mul_of_pos_right hm' (zpow_two_pos e)
      _ = 2 ^ (53 + e) := by
        rw [zpow_add₀ two_ne_zero]
        norm_cast
      _ ≤ 2 ^ (t + 52) := zpow_le_zpow_right₀ one_le_two (by omega)

namespace Nearest

variable {s : Sign} {z v : ℚ} {r m : Nat} {t q : Int}

theorem bounds (h : Nearest z r t) :
    (r - 1 / 2) * 2 ^ t ≤ z ∧ z ≤ (r + 1 / 2) * 2 ^ t := by
  obtain ⟨hlow, hhigh⟩ := abs_le.1 h.half
  constructor <;> linarith

theorem even_of_eq (h : Nearest z r t) (hz : z = (r - 1 / 2) * 2 ^ t ∨ z = (r + 1 / 2) * 2 ^ t) :
    r % 2 = 0 := by
  have hpos := zpow_two_pos t
  refine h.even ?_
  obtain rfl | rfl := hz
  · rw [abs_of_nonneg] <;> linarith
  · rw [abs_of_nonpos] <;> linarith

/-- A whole number of units on one side of the number is on the same side of the result. -/
theorem le_of_le_mul (h : Nearest z r t) {n : Nat} (hz : z ≤ n * 2 ^ t) : r ≤ n := by
  have hle := le_of_mul_le_mul_right (h.bounds.1.trans hz) (zpow_two_pos t)
  have hlt : (r : ℚ) < (n + 1 : Nat) := by
    push_cast
    linarith
  exact Nat.lt_succ_iff.1 (by exact_mod_cast hlt)

theorem le_of_mul_le (h : Nearest z r t) {n : Nat} (hz : n * 2 ^ t ≤ z) : n ≤ r := by
  have hle := le_of_mul_le_mul_right (hz.trans h.bounds.2) (zpow_two_pos t)
  have hlt : (n : ℚ) < (r + 1 : Nat) := by
    push_cast
    linarith
  exact Nat.lt_succ_iff.1 (by exact_mod_cast hlt)

theorem le_most (h : Nearest z r t) : r ≤ 2 ^ 53 := by
  refine h.le_of_le_mul (h.high.le.trans_eq ?_)
  rw [add_comm, zpow_add₀ two_ne_zero]
  norm_cast

theorem normal_or_least (h : Nearest z r t) : 2 ^ 52 ≤ r ∨ t = -1074 := by
  refine h.low.symm.imp_left fun hlow => h.le_of_mul_le (le_trans (le_of_eq ?_) hlow)
  rw [add_comm, zpow_add₀ two_ne_zero]
  norm_cast

/-- Half a unit in the last place is small against the number, or half the least double. -/
theorem error (h : Nearest z r t) : |r * 2 ^ t - z| ≤ z / 2 ^ 53 + tiny / 2 := by
  have hz : 0 ≤ z / 2 ^ 53 := div_nonneg h.nonneg (by positivity)
  have htiny : 0 < tiny := zpow_two_pos (-1074)
  refine h.half.trans ?_
  obtain rfl | hlow := h.low
  · exact le_add_of_nonneg_left hz
  · rw [zpow_add₀ two_ne_zero] at hlow
    norm_num at hlow ⊢
    linarith

/-- A double that is not below the number is not below the result. -/
theorem le_of_le (h : Nearest z r t) (hv : Representable v) (hz : z ≤ v) : r * 2 ^ t ≤ v := by
  obtain ⟨n, rfl⟩ | ⟨hlt, hleast⟩ := hv.cases t
  · have hn : (r : ℚ) ≤ n := by exact_mod_cast h.le_of_le_mul hz
    exact mul_le_mul_of_nonneg_right hn (zpow_two_pos t).le
  · have hlow := h.low.resolve_left hleast.ne'
    exact absurd (hlow.trans hz) hlt.not_ge

theorem le_of_ge (h : Nearest z r t) (hv : Representable v) (hz : v ≤ z) : v ≤ r * 2 ^ t := by
  obtain ⟨n, rfl⟩ | ⟨hlt, hleast⟩ := hv.cases t
  · have hn : (n : ℚ) ≤ r := by exact_mod_cast h.le_of_mul_le hz
    exact mul_le_mul_of_nonneg_right hn (zpow_two_pos t).le
  · have hr : (2 : ℚ) ^ 52 ≤ r := by exact_mod_cast h.normal_or_least.resolve_right hleast.ne'
    refine hlt.le.trans ?_
    rw [add_comm, zpow_add₀ two_ne_zero]
    exact mul_le_mul_of_nonneg_right (by exact_mod_cast hr) (zpow_two_pos t).le

theorem exponent_le (h : Nearest z r t) (hz : z ≤ greatest) : t ≤ 971 ∧ (t = 971 → r < 2 ^ 53) := by
  refine ⟨?_, ?_⟩
  · obtain rfl | hlow := h.low
    · decide
    · have := lt_of_zpow_le hlow (hz.trans_lt greatest_lt)
      omega
  · rintro rfl
    have hle := h.le_of_le representable_greatest hz
    rw [greatest] at hle
    have hr := le_of_mul_le_mul_right hle (zpow_two_pos 971)
    have hlt : (r : ℚ) < 2 ^ 53 := hr.trans_lt (by norm_num)
    exact_mod_cast hlt

/-- What the rounded mantissa stands for, if the number is not too great. -/
theorem rounded_spec (h : Nearest z r t) (hz : z ≤ greatest) :
    UnpackedFloat.unpack Format.binary64 (UnpackedFloat.pack Format.binary64 (rounded s r t)) =
        rounded s r t ∧
      (rounded s r t).isFinite = true ∧ ofUnpacked (rounded s r t) = s.apply r * 2 ^ t :=
  Double.rounded_spec h.le_most h.normal_or_least h.least (h.exponent_le hz).1 (h.exponent_le hz).2

end Nearest

/-! ## The double that a number reads as -/

variable {s : Sign} {z : ℚ} {r m : Nat} {t q : Int}

theorem marginBelow_pos (m : Nat) (q : Int) : 0 < marginBelow m q := by
  unfold marginBelow
  split_ifs <;> norm_num

theorem marginBelow_le (m : Nat) (q : Int) : marginBelow m q ≤ 1 / 2 := by
  unfold marginBelow
  split_ifs <;> norm_num

/-- What a double stands for reads as it. -/
theorem ReadsAs.self (m : Nat) (q : Int) : ReadsAs (m * 2 ^ q) m q := by
  have hunit := zpow_two_pos q
  have hmargin := mul_pos (marginBelow_pos m q) hunit
  have hlow : (m - marginBelow m q) * 2 ^ q < m * 2 ^ q := by linarith
  have hhigh : (m : ℚ) * 2 ^ q < (m + 1 / 2) * 2 ^ q := by linarith
  exact ⟨hlow.le, hhigh.le, fun h => (h.elim hlow.ne' hhigh.ne).elim⟩

theorem ReadsAs.pos (hz : ReadsAs z m q) (hm : 0 < m) : 0 < z := by
  have hm' : (1 : ℚ) ≤ m := by exact_mod_cast hm
  have hmargin := marginBelow_le m q
  exact (mul_pos (by linarith) (zpow_two_pos q)).trans_le hz.low

/-- What reads as a double below one is below one. -/
theorem ReadsAs.lt_one (hz : ReadsAs z m q) (hm : 0 < m) (hlt : m * (2 : ℚ) ^ q < 1) : z < 1 := by
  have hm' : (1 : ℚ) ≤ m := by exact_mod_cast hm
  have hunit := zpow_two_pos q
  have hq : q < 0 := by
    by_contra hge
    have hpow : (1 : ℚ) ≤ 2 ^ q := one_le_zpow₀ one_le_two (not_lt.1 hge)
    exact hlt.not_ge (one_le_mul_of_one_le_of_one_le hm' hpow)
  obtain ⟨n, rfl⟩ : ∃ n : Nat, q = -n := ⟨(-q).toNat, by omega⟩
  rw [zpow_neg, zpow_natCast, ← div_eq_mul_inv, div_lt_one (by positivity)] at hlt
  -- The next double is at most one, and the number is not halfway to it.
  have hnext : (m : ℚ) + 1 ≤ 2 ^ n := by
    have : m < 2 ^ n := by exact_mod_cast hlt
    exact_mod_cast this
  refine hz.high.trans_lt ?_
  rw [zpow_neg, zpow_natCast, ← div_eq_mul_inv, div_lt_one (by positivity)]
  linarith

/-- The number is within half a unit in the last place of the double that it reads as. -/
theorem ReadsAs.error (hz : ReadsAs z m q) (hc : Canonical m q) :
    |z - m * 2 ^ q| ≤ m * 2 ^ q / 2 ^ 53 + tiny / 2 := by
  have hunit := zpow_two_pos q
  have hmargin := mul_le_mul_of_nonneg_right (marginBelow_le m q) hunit.le
  have hlow := hz.low
  have hhigh := hz.high
  have hhalf : |z - m * 2 ^ q| ≤ 2 ^ q / 2 := by
    rw [abs_le]
    constructor <;> linarith
  refine hhalf.trans ?_
  obtain hm | rfl := hc.normal_or_least
  · have htiny : 0 < tiny := zpow_two_pos (-1074)
    have hm' : (2 : ℚ) ^ 52 ≤ m := by exact_mod_cast hm
    have hulp := mul_le_mul_of_nonneg_right hm' hunit.le
    norm_num at hulp ⊢
    linarith
  · have hvalue : (0 : ℚ) ≤ m * 2 ^ (-1074 : Int) / 2 ^ 53 := by positivity
    exact le_add_of_nonneg_left hvalue

/-- With the exponent of the double, the mantissa is that of the double. -/
theorem Nearest.mantissa_eq (h : Nearest z r q) (hz : ReadsAs z m q) : r = m := by
  have hpos := zpow_two_pos q
  have hmargin := marginBelow_le m q
  obtain ⟨hlow, hhigh⟩ := h.bounds
  -- Neighbours could only share the point halfway between them, which goes to the even one of them.
  rcases lt_trichotomy r m with hlt | heq | hlt
  · have hm : (r : ℚ) + 1 ≤ m := by exact_mod_cast hlt
    have hle := le_of_mul_le_mul_right (hz.low.trans hhigh) hpos
    have hmargin' : marginBelow m q = 1 / 2 := by linarith
    have hsucc : (m : ℚ) = r + 1 := by linarith
    have htie : z = (r + 1 / 2) * 2 ^ q := by
      refine le_antisymm hhigh ?_
      have hz' := hz.low
      rw [hmargin', hsucc] at hz'
      linarith
    have hr := h.even_of_eq (.inr htie)
    have hm' := hz.even (.inl (by rw [htie, hmargin', hsucc]; ring))
    have hsucc' : m = r + 1 := by exact_mod_cast hsucc
    omega
  · exact heq
  · have hr : (m : ℚ) + 1 ≤ r := by exact_mod_cast hlt
    have hle := le_of_mul_le_mul_right (hlow.trans hz.high) hpos
    have hsucc : (r : ℚ) = m + 1 := by linarith
    have htie : z = (m + 1 / 2) * 2 ^ q := by
      refine le_antisymm hz.high ?_
      rw [hsucc] at hlow
      linarith
    have hm := hz.even (.inr htie)
    have hr' := h.even_of_eq (.inl (by rw [htie, hsucc]; ring))
    have hsucc' : r = m + 1 := by exact_mod_cast hsucc
    omega

/-- Only the least mantissa of an exponent is read from below all of them. -/
theorem ReadsAs.eq_leastNormal (hz : ReadsAs z m q) (hm : 2 ^ 52 ≤ m) (hsmall : z < 2 ^ (q + 52)) :
    m = 2 ^ 52 := by
  have hmargin := marginBelow_le m q
  have hlt := hz.low.trans_lt hsmall
  rw [add_comm q, zpow_add₀ two_ne_zero] at hlt
  have hm' := lt_of_mul_lt_mul_right hlt (zpow_two_pos q).le
  have hlt' : (m : ℚ) < 2 ^ 52 + 1 := by
    norm_num at hm'
    linarith
  have : m < 2 ^ 52 + 1 := by exact_mod_cast hlt'
  omega

/-- Rounding gives the double that the number reads as. -/
theorem Nearest.rounded_eq (h : Nearest z r t) (hz : ReadsAs z m q) (hc : Canonical m q) :
    rounded s r t = .finite s m q hc.pos := by
  have hleast := hc.least_le
  have hm : (m : ℚ) + 1 ≤ 2 ^ 53 := by exact_mod_cast hc.lt
  have hhigh : z < 2 ^ (q + 53) := by
    refine hz.high.trans_lt ?_
    rw [add_comm q, zpow_add₀ two_ne_zero]
    refine mul_lt_mul_of_pos_right ?_ (zpow_two_pos q)
    norm_num at hm ⊢
    linarith
  have hle : t ≤ q := by
    obtain rfl | hlow := h.low
    · exact hleast
    · have := lt_of_zpow_le hlow hhigh
      omega
  by_cases hlarge : 2 ^ (q + 52) ≤ z ∨ q = -1074
  · have hge : q ≤ t := by
      obtain hlarge | rfl := hlarge
      · have := lt_of_zpow_le hlarge h.high
        omega
      · exact h.least
    obtain rfl : t = q := le_antisymm hle hge
    obtain rfl := h.mantissa_eq hz
    rw [rounded, if_pos hc.lt, finiteOrZero, dif_neg hc.pos.ne']
  · -- Below the least mantissa of the exponent, rounding goes up to it from the exponent below.
    obtain ⟨hsmall, hne⟩ := not_or.1 hlarge
    rw [not_le] at hsmall
    obtain rfl : m = 2 ^ 52 := hz.eq_leastNormal (hc.normal_or_least.resolve_right hne) hsmall
    have hunit : (2 : ℚ) ^ q = 2 * 2 ^ (q - 1) := by
      rw [zpow_sub_one₀ two_ne_zero]
      ring
    have hlow : (2 ^ 53 - 1 / 2) * 2 ^ (q - 1) ≤ z := by
      have hz' := hz.low
      rw [marginBelow, if_pos ⟨rfl, by omega⟩, hunit] at hz'
      push_cast at hz'
      linarith
    obtain rfl : t = q - 1 := by
      have hlow' : (2 : ℚ) ^ (q - 1 + 52) ≤ z := by
        refine le_trans ?_ hlow
        rw [add_comm, zpow_add₀ two_ne_zero]
        refine mul_le_mul_of_nonneg_right ?_ (zpow_two_pos _).le
        norm_num
      have hge := lt_of_zpow_le hlow' h.high
      obtain rfl | hlow := h.low
      · omega
      · have := lt_of_zpow_le hlow hsmall
        omega
    have hr : r = 2 ^ 53 := by
      refine le_antisymm h.le_most (not_lt.1 fun hlt => ?_)
      have hr : (r : ℚ) + 1 ≤ 2 ^ 53 := by exact_mod_cast hlt
      have hle := le_of_mul_le_mul_right (hlow.trans h.bounds.2) (zpow_two_pos (q - 1))
      have hpred : (r : ℚ) = 2 ^ 53 - 1 := by linarith
      have heven := h.even_of_eq (.inr (le_antisymm h.bounds.2 (by rw [hpred]; linarith)))
      have hpred' : r + 1 = 2 ^ 53 := by exact_mod_cast (by linarith : (r : ℚ) + 1 = 2 ^ 53)
      omega
    rw [hr, rounded, if_neg (lt_irrefl _), Int.sub_add_cancel]
    rfl

end MagicCircle.Double
