import MagicCircle.Double.Band
import MagicCircle.Proofs.Double.Operations

/-!
# Bounds through operations

At a scale far from the ends of the range, rounding adds no more than the slack to an error
(`Scale.error_le`). So bounds on the operands of an operation are bounds on its result, up to that
slack (`Band.add`, `Band.sub`, `Band.mul`, `Band.div`), and the numbers that are left to check are
fixed ones (`Within`).
-/

namespace MagicCircle.Double

variable {k l a b c d lo hi z : ℚ} {x y : Float}

theorem slack_pos : 0 < slack := by norm_num [slack]

namespace Scale

theorem one : Scale 1 :=
  ⟨zpow_le_one_of_nonpos₀ one_le_two (by omega), one_le_zpow₀ one_le_two (by omega)⟩

theorem pos (hk : Scale k) : 0 < k := (zpow_two_pos _).trans_le hk.least

theorem le_huge (hk : Scale k) (hz : |z| ≤ 2 ^ 20 * k) : |z| ≤ huge := by
  have hhuge : huge = 2 ^ 22 * 2 ^ (1000 : Int) := by
    rw [huge, show (1022 : Int) = 1000 + (22 : Nat) by omega, two_zpow_add, mul_comm]
  calc |z| ≤ 2 ^ 20 * k := hz
    _ ≤ 2 ^ 22 * k := mul_le_mul_of_nonneg_right (by norm_num) hk.pos.le
    _ ≤ 2 ^ 22 * 2 ^ (1000 : Int) := mul_le_mul_of_nonneg_left hk.most (by norm_num)
    _ = huge := hhuge.symm

theorem error_le (hk : Scale k) (hz : |z| ≤ 2 ^ 20 * k) : |z| / 2 ^ 52 + tiny ≤ slack * k := by
  have htiny : tiny ≤ k / 2 ^ 74 := by
    rw [tiny, show (-1074 : Int) = -1000 - 74 by omega, zpow_sub₀ two_ne_zero]
    exact div_le_div_of_nonneg_right hk.least (by positivity)
  have hulp : |z| / 2 ^ 52 ≤ 2 ^ 20 * k / 2 ^ 52 := div_le_div_of_nonneg_right hz (by positivity)
  have hpos := hk.pos
  have hsum : 2 ^ 20 * k / 2 ^ 52 + k / 2 ^ 74 = (1 / 2 ^ 32 + 1 / 2 ^ 74) * k := by ring
  have hslack : 1 / 2 ^ 32 + 1 / 2 ^ 74 ≤ slack := by norm_num [slack]
  have := mul_le_mul_of_nonneg_right hslack hpos.le
  linarith

theorem near_le (hk : Scale k) (h : Near x z) (hz : |z| ≤ 2 ^ 20 * k) : |value x - z| ≤ slack * k :=
  h.error.trans (hk.error_le hz)

end Scale

namespace Within

theorem least_le (hw : Within a b lo hi) : -2 ^ 20 ≤ a := by
  linarith [hw.least, hw.low, slack_pos]

theorem le_most (hw : Within a b lo hi) : b ≤ 2 ^ 20 := by
  linarith [hw.most, hw.high, slack_pos]

theorem abs_le_scale (hw : Within a b lo hi) (hk : Scale k) (hlow : a * k ≤ z) (hhigh : z ≤ b * k) :
    |z| ≤ 2 ^ 20 * k := by
  have := mul_le_mul_of_nonneg_right hw.least_le hk.pos.le
  have := mul_le_mul_of_nonneg_right hw.le_most hk.pos.le
  refine abs_le.2 ⟨?_, ?_⟩ <;> linarith

end Within

namespace Band

theorem of_near (hk : Scale k) (hlow : a * k ≤ z) (hhigh : z ≤ b * k) (hw : Within a b lo hi)
    (h : |z| ≤ huge → Near x z) : Band k lo hi x := by
  have habs := hw.abs_le_scale hk hlow hhigh
  have hx := h (hk.le_huge habs)
  have herror := abs_le.1 (hk.near_le hx habs)
  have hlow' := mul_le_mul_of_nonneg_right hw.low hk.pos.le
  have hhigh' := mul_le_mul_of_nonneg_right hw.high hk.pos.le
  refine ⟨hx.finite, ?_, ?_⟩ <;> linarith

theorem mono (hx : Band k a b x) (hk : Scale k) (hlow : lo ≤ a) (hhigh : b ≤ hi) :
    Band k lo hi x :=
  ⟨hx.finite, (mul_le_mul_of_nonneg_right hlow hk.pos.le).trans hx.low,
    hx.high.trans (mul_le_mul_of_nonneg_right hhigh hk.pos.le)⟩

theorem abs_value_le (hx : Band k (-a) a x) : |value x| ≤ a * k := by
  have hlow := hx.low
  rw [neg_mul] at hlow
  exact abs_le.2 ⟨hlow, hx.high⟩

theorem of_abs_le (hfinite : x.isFinite = true) (h : |value x| ≤ a * k) : Band k (-a) a x := by
  obtain ⟨hlow, hhigh⟩ := abs_le.1 h
  exact ⟨hfinite, by rwa [neg_mul], hhigh⟩

theorem widen (hx : Band l (-a) a x) (ha : 0 ≤ a) (hlk : l ≤ k) : Band k (-a) a x :=
  of_abs_le hx.finite (hx.abs_value_le.trans (mul_le_mul_of_nonneg_left hlk ha))

theorem neg (hx : Band k a b x) : Band k (-b) (-a) (-x) := by
  obtain ⟨hfinite, hvalue⟩ := near_neg hx.finite
  refine ⟨hfinite, ?_, ?_⟩ <;> rw [hvalue]
  · linarith [hx.high]
  · linarith [hx.low]

theorem add (hk : Scale k) (hx : Band k a b x) (hy : Band k c d y)
    (hw : Within (a + c) (b + d) lo hi) : Band k lo hi (x + y) := by
  refine of_near hk ?_ ?_ hw (near_add hx.finite hy.finite)
  · linarith [hx.low, hy.low]
  · linarith [hx.high, hy.high]

theorem sub (hk : Scale k) (hx : Band k a b x) (hy : Band k c d y)
    (hw : Within (a - d) (b - c) lo hi) : Band k lo hi (x - y) := by
  refine of_near hk ?_ ?_ hw (near_sub hx.finite hy.finite)
  · linarith [hx.low, hy.high]
  · linarith [hx.high, hy.low]

theorem mul (hk : Scale k) (hl : Scale l) (hkl : Scale (k * l)) (hx : Band k a b x)
    (hy : Band l c d y) (ha : 0 ≤ a) (hc : 0 ≤ c) (hw : Within (a * c) (b * d) lo hi) :
    Band (k * l) lo hi (x * y) := by
  have hl' := hl.pos.le
  have hx0 : 0 ≤ value x := (mul_nonneg ha hk.pos.le).trans hx.low
  have hy0 : 0 ≤ value y := (mul_nonneg hc hl').trans hy.low
  refine of_near hkl ?_ ?_ hw (near_mul hx.finite hy.finite)
  · rw [mul_mul_mul_comm]
    exact mul_le_mul hx.low hy.low (mul_nonneg hc hl') hx0
  · rw [mul_mul_mul_comm]
    exact mul_le_mul hx.high hy.high hy0 (hx0.trans hx.high)

/-- Of factors with any sign. -/
theorem mul_abs (hk : Scale k) (hx : Band 1 (-a) a x) (hy : Band k (-b) b y)
    (hw : Within (-(a * b)) (a * b) lo hi) : Band k lo hi (x * y) := by
  have habs : |value x * value y| ≤ a * b * k := by
    have hx' := hx.abs_value_le
    rw [mul_one] at hx'
    rw [abs_mul, mul_assoc]
    exact mul_le_mul hx' hy.abs_value_le (abs_nonneg _) ((abs_nonneg _).trans hx')
  obtain ⟨hlow, hhigh⟩ := abs_le.1 habs
  refine of_near hk ?_ hhigh hw (near_mul hx.finite hy.finite)
  rwa [neg_mul]

theorem div (hk : Scale k) (hl : Scale l) (hkl : Scale (k / l)) (hx : Band k a b x)
    (hy : Band l c d y) (ha : 0 ≤ a) (hc : 0 < c) (hw : Within (a / d) (b / c) lo hi) :
    Band (k / l) lo hi (x / y) := by
  have hx0 : 0 ≤ value x := (mul_nonneg ha hk.pos.le).trans hx.low
  have hy0 : 0 < value y := (mul_pos hc hl.pos).trans_le hy.low
  refine of_near hkl ?_ ?_ hw (near_div hx.finite hy.finite hy0.ne')
  · rw [div_mul_div_comm]
    exact div_le_div₀ hx0 hx.low hy0 hy.high
  · rw [div_mul_div_comm]
    exact div_le_div₀ (hx0.trans hx.high) hx.high (mul_pos hc hl.pos) hy.low

theorem mul_near (hx : Band 1 (-2) 2 x) (hy : Band 1 (-2) 2 y) :
    |value (x * y) - value x * value y| ≤ slack := by
  have hprod : |value x * value y| ≤ 2 * 1 * (2 * 1) := by
    rw [abs_mul]
    exact mul_le_mul hx.abs_value_le hy.abs_value_le (abs_nonneg _) (by norm_num)
  have habs : |value x * value y| ≤ 2 ^ 20 * 1 := hprod.trans (by norm_num)
  have herror := Scale.one.near_le (near_mul hx.finite hy.finite (Scale.one.le_huge habs)) habs
  rwa [mul_one] at herror

theorem add_near (hx : Band 1 (-5) 5 x) (hy : Band 1 (-5) 5 y) :
    |value (x + y) - (value x + value y)| ≤ slack := by
  have hsum : |value x + value y| ≤ 5 * 1 + 5 * 1 :=
    (abs_add_le _ _).trans (add_le_add hx.abs_value_le hy.abs_value_le)
  have habs : |value x + value y| ≤ 2 ^ 20 * 1 := hsum.trans (by norm_num)
  have herror := Scale.one.near_le (near_add hx.finite hy.finite (Scale.one.le_huge habs)) habs
  rwa [mul_one] at herror

/-! ### Multiples of a length -/

theorem mul_const (hk : Scale k) (hx : Band k a b x) (hy : Band 1 c d y) (ha : 0 ≤ a) (hc : 0 ≤ c)
    (hw : Within (a * c) (b * d) lo hi) : Band k lo hi (x * y) := by
  have h := mul hk .one (by rwa [mul_one]) hx hy ha hc hw
  rwa [mul_one] at h

theorem const_mul (hk : Scale k) (hx : Band 1 a b x) (hy : Band k c d y) (ha : 0 ≤ a) (hc : 0 ≤ c)
    (hw : Within (a * c) (b * d) lo hi) : Band k lo hi (x * y) := by
  have h := mul .one hk (by rwa [one_mul]) hx hy ha hc hw
  rwa [one_mul] at h

theorem div_const (hk : Scale k) (hx : Band k a b x) (hy : Band 1 c d y) (ha : 0 ≤ a) (hc : 0 < c)
    (hw : Within (a / d) (b / c) lo hi) : Band k lo hi (x / y) := by
  have h := div hk .one (by rwa [div_one]) hx hy ha hc hw
  rwa [div_one] at h

end Band

namespace Moderate

theorem pos (h : Moderate x) : 0 < value x := (zpow_two_pos _).trans_le h.least

theorem scale (h : Moderate x) : Scale (value x) := by
  refine ⟨le_trans ?_ h.least, h.most.trans ?_⟩ <;>
    exact zpow_le_zpow_right₀ one_le_two (by omega)

theorem scale_mul_self (h : Moderate x) : Scale (value x * value x) := by
  constructor
  · rw [show (-1000 : Int) = -500 + -500 by omega, zpow_add₀ two_ne_zero]
    exact mul_le_mul h.least h.least (zpow_two_pos _).le h.pos.le
  · rw [show (1000 : Int) = 500 + 500 by omega, zpow_add₀ two_ne_zero]
    exact mul_le_mul h.most h.most h.pos.le (zpow_two_pos _).le

theorem band (h : Moderate x) : Band (value x) 1 1 x :=
  ⟨h.finite, (one_mul _).le, (one_mul _).ge⟩

end Moderate

end MagicCircle.Double
