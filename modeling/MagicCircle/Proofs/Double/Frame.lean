import MagicCircle.Proofs.Double.Plan

/-!
# Frames on doubles

Moving and turning a frame leaves its matrix about as large as it was, and its origin not much
farther away (`Frame.Settled.comp`). So both stay bounded for as many moves as the nesting of a
diagram takes.
-/

namespace MagicCircle

open Double
open Scalar (num)

variable {k : ℚ} {n : Nat}

/-- One of the two rows of a frame after `n` moves: what it multiplies the coordinates by, and where
the origin is. -/
structure Frame.Row (k : ℚ) (n : Nat) (p q r : Float) : Prop where
  finite : p.isFinite = true
  finite' : q.isFinite = true
  weight : |value p| + |value q| ≤ 1 + n / 2 ^ 26
  origin : Band k (-(9 * n)) (9 * n) r

structure Frame.Settled (k : ℚ) (n : Nat) (f : Frame Float) : Prop where
  x : Frame.Row k n f.a f.c f.e
  y : Frame.Row k n f.b f.d f.f

/-- A frame inside another one that does not enlarge it. -/
structure Frame.Move (k : ℚ) (f : Frame Float) : Prop where
  finite : f.a.isFinite = true ∧ f.b.isFinite = true ∧ f.c.isFinite = true ∧ f.d.isFinite = true
  x : |value f.a| + |value f.c| ≤ 1 + 1 / 2 ^ 40
  y : |value f.b| + |value f.d| ≤ 1 + 1 / 2 ^ 40
  origin : Point.Bounded k ⟨f.e, f.f⟩

namespace Frame

variable {p q r x y : Float}

/-- The three roundings in a sum of two products. -/
theorem dot_near (hp : Band 1 (-2) 2 p) (hq : Band 1 (-2) 2 q) (hx : Band 1 (-2) 2 x)
    (hy : Band 1 (-2) 2 y) : (p * x + q * y).isFinite = true ∧
      |value (p * x + q * y)| ≤ |value p| * |value x| + |value q| * |value y| + 3 * slack := by
  have hpx : Band 1 (-5) 5 (p * x) := hp.mul_abs .one hx (by decide +kernel)
  have hqy : Band 1 (-5) 5 (q * y) := hq.mul_abs .one hy (by decide +kernel)
  have hsum : Band 1 (-11) 11 (p * x + q * y) := hpx.add .one hqy (by decide +kernel)
  have hnear := abs_sub_abs_le_abs_sub (value (p * x)) (value p * value x)
  have hnear' := abs_sub_abs_le_abs_sub (value (q * y)) (value q * value y)
  have hnear'' := abs_sub_abs_le_abs_sub (value (p * x + q * y)) (value (p * x) + value (q * y))
  have htriangle := abs_add_le (value (p * x)) (value (q * y))
  rw [abs_mul] at hnear hnear'
  refine ⟨hsum.finite, ?_⟩
  linarith [hp.mul_near hx, hq.mul_near hy, hpx.add_near hqy]

namespace Row

theorem weight_le_two (h : Row k n p q r) (hn : n ≤ 4096) : |value p| + |value q| ≤ 2 := by
  have hcast : (n : ℚ) ≤ 4096 := by exact_mod_cast hn
  have := h.weight
  linarith

theorem band_left (h : Row k n p q r) (hn : n ≤ 4096) : Band 1 (-2) 2 p := by
  refine .of_abs_le h.finite ?_
  linarith [h.weight_le_two hn, abs_nonneg (value q)]

theorem band_right (h : Row k n p q r) (hn : n ≤ 4096) : Band 1 (-2) 2 q := by
  refine .of_abs_le h.finite' ?_
  linarith [h.weight_le_two hn, abs_nonneg (value p)]

theorem origin_comp (hk : Scale k) (h : Row k n p q r) (hn : n ≤ 4096) (hx : Band k (-2) 2 x)
    (hy : Band k (-2) 2 y) :
    Band k (-(9 * (n + 1 : Nat))) (9 * (n + 1 : Nat)) (p * x + q * y + r) := by
  have hcast : (n : ℚ) ≤ 4096 := by exact_mod_cast hn
  have hpx : Band k (-4.1) 4.1 (p * x) := (h.band_left hn).mul_abs hk hx (by decide +kernel)
  have hqy : Band k (-4.1) 4.1 (q * y) := (h.band_right hn).mul_abs hk hy (by decide +kernel)
  have hdot : Band k (-8.5) 8.5 (p * x + q * y) := hpx.add hk hqy (by decide +kernel)
  refine hdot.add hk h.origin ?_
  have hslack : slack ≤ 0.5 := by norm_num [slack]
  constructor <;> push_cast <;> linarith

end Row

/-- A row of the outer frame with a column pair of the inner one. -/
theorem Row.comp (hk : Scale k) (h : Row k n p q r) {f : Frame Float} (hf : Move k f)
    (hn : n ≤ 4096) :
    Row k (n + 1) (p * f.a + q * f.b) (p * f.c + q * f.d) (p * f.e + q * f.f + r) := by
  have hp := h.band_left hn
  have hq := h.band_right hn
  obtain ⟨ha, hb, hc, hd⟩ := hf.finite
  have hx := hf.x
  have hy := hf.y
  have hentry {x y : Float} (hfinite : x.isFinite = true)
      (hweight : |value x| + |value y| ≤ 1 + 1 / 2 ^ 40) : Band 1 (-2) 2 x := by
    refine .of_abs_le hfinite ?_
    linarith [abs_nonneg (value y)]
  obtain ⟨hfirst, hleft⟩ := dot_near hp hq (hentry ha hx) (hentry hb hy)
  obtain ⟨hsecond, hright⟩ := dot_near hp hq (hentry hc (add_comm |value f.a| _ ▸ hx))
    (hentry hd (add_comm |value f.b| _ ▸ hy))
  refine ⟨hfirst, hsecond, ?_, h.origin_comp hk hn hf.origin.x hf.origin.y⟩
  have hgrow : |value p| * (|value f.a| + |value f.c|) + |value q| * (|value f.b| + |value f.d|) ≤
      (|value p| + |value q|) * (1 + 1 / 2 ^ 40) := by
    rw [add_mul]
    exact add_le_add (mul_le_mul_of_nonneg_left hx (abs_nonneg _))
      (mul_le_mul_of_nonneg_left hy (abs_nonneg _))
  have hroom : 2 * (1 / 2 ^ 40) + 6 * slack ≤ 1 / 2 ^ 26 := by norm_num [slack]
  have hweight := h.weight
  have htwo := h.weight_le_two hn
  push_cast
  linarith

theorem Settled.comp (hk : Scale k) {t f : Frame Float} (h : Settled k n t) (hf : Move k f)
    (hn : n ≤ 4096) : Settled k (n + 1) (t.comp f) :=
  ⟨h.x.comp hk hf hn, h.y.comp hk hf hn⟩

/-! ## Moves -/

theorem Move.translation (hx : Band k (-2) 2 x) (hy : Band k (-2) 2 y) :
    Move k (Frame.translation x y) := by
  have hone : (num 1 : Float).isFinite = true := by decide
  have hzero : (num 0 : Float).isFinite = true := by decide
  have hrow : |value (num 1)| + |value (num 0)| ≤ 1 + 1 / 2 ^ 40 := by decide +kernel
  exact ⟨⟨hone, hzero, hzero, hone⟩, hrow, by rwa [add_comm] at hrow, ⟨hx, hy⟩⟩

theorem Move.rotation {t : Trigonometry} (ht : t.Sound) (hk : Scale k) (shape : Triangle)
    {angle : Float} (hangle : angle ∈ [shape.angle, -shape.angle]) :
    Move k (@Frame.rotation Float t.scalar angle) := by
  have hsin := ht.sin_finite shape angle hangle
  have hcos := ht.cos_finite shape angle hangle
  have hunit := ht.unit shape angle hangle
  obtain ⟨hneg, hvalue⟩ := near_neg hsin
  have hzero : Band k (-2) 2 (num 0) := (band_zero k).mono hk (by norm_num) two_pos.le
  refine ⟨⟨hcos, hsin, hneg, hcos⟩, ?_, hunit, ⟨hzero, hzero⟩⟩
  change |value (t.cos angle)| + |value (-t.sin angle)| ≤ _
  rwa [hvalue, abs_neg, add_comm]

namespace Settled

variable {f : Frame Float}

theorem identity (k : ℚ) : Settled k 0 Frame.identity := by
  have hzero : Band k (-(9 * (0 : Nat))) (9 * (0 : Nat)) (num 0) := by simpa using band_zero k
  exact ⟨⟨by decide, by decide, by decide +kernel, hzero⟩,
    ⟨by decide, by decide, by decide +kernel, hzero⟩⟩

theorem mono {m : Nat} (hk : Scale k) (h : Settled k n f) (hnm : n ≤ m) : Settled k m f := by
  have hcast : (n : ℚ) ≤ m := by exact_mod_cast hnm
  have hrow {p q r : Float} (h : Row k n p q r) : Row k m p q r := by
    refine ⟨h.finite, h.finite', ?_, h.origin.mono hk (by linarith) (by linarith)⟩
    linarith [h.weight]
  exact ⟨hrow h.x, hrow h.y⟩

theorem translate (hk : Scale k) (h : Settled k n f) (hn : n ≤ 4096) (hx : Band k (-2) 2 x)
    (hy : Band k (-2) 2 y) : Settled k (n + 1) (f.translate x y) :=
  h.comp hk (.translation hx hy) hn

theorem rotate {t : Trigonometry} (ht : t.Sound) (hk : Scale k) (h : Settled k n f) (hn : n ≤ 4096)
    (shape : Triangle) {angle : Float} (hangle : angle ∈ [shape.angle, -shape.angle]) :
    Settled k (n + 1) (@Frame.rotate Float t.scalar f angle) :=
  h.comp hk (.rotation ht hk shape hangle) hn

theorem place_finite (hk : Scale k) (h : Settled k n f) (hn : n ≤ 4096) :
    ∀ x ∈ (f.apply Point.origin).numbers, x.isFinite = true := by
  have hzero : Band k (-2) 2 (num 0) := (band_zero k).mono hk (by norm_num) two_pos.le
  have hx := (h.x.origin_comp hk hn hzero hzero).finite
  have hy := (h.y.origin_comp hk hn hzero hzero).finite
  simpa [Point.numbers] using ⟨hx, hy⟩

end Settled

end Frame

end MagicCircle
