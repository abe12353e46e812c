import MagicCircle.Scalar
import Mathlib.Analysis.SpecialFunctions.Complex.Arg

/-!
# Exact arithmetic

The arithmetic that a drawing is meant in: every operation is that of the real numbers, and every
positive number is a length that can be drawn.
-/

namespace MagicCircle

open Classical in
noncomputable instance : Scalar ℝ where
  num n := n
  margin := 1 / 10
  fill := 4 / 5
  halfTurn := Real.pi
  cosEighth := Real.cos (Real.pi / 4)
  sinEighth := Real.sin (Real.pi / 4)
  sqrt := Real.sqrt
  sin := Real.sin
  cos := Real.cos
  atan2 y x := Complex.arg ⟨x, y⟩
  usable x := decide (0 < x)

namespace Scalar

@[simp] theorem num_real (n : Nat) : (num n : ℝ) = n := rfl

@[simp] theorem margin_real : (margin : ℝ) = 1 / 10 := rfl

@[simp] theorem fill_real : (fill : ℝ) = 4 / 5 := rfl

@[simp] theorem sqrt_real (x : ℝ) : sqrt x = √x := rfl

@[simp] theorem sin_real (x : ℝ) : sin x = Real.sin x := rfl

@[simp] theorem cos_real (x : ℝ) : cos x = Real.cos x := rfl

theorem atan2_real (y x : ℝ) : atan2 y x = Complex.arg ⟨x, y⟩ := rfl

@[simp] theorem halfTurn_real : (halfTurn : ℝ) = Real.pi := rfl

@[simp] theorem quarterTurn_real : (quarterTurn : ℝ) = Real.pi / 2 := rfl

theorem usable_real {x : ℝ} : usable x = true ↔ 0 < x := decide_eq_true_iff

/-- The cosine of an eighth of a turn is its sine, and its square is a half. -/
theorem sinEighth_real : (sinEighth : ℝ) = cosEighth :=
  Real.sin_pi_div_four.trans Real.cos_pi_div_four.symm

theorem cosEighth_real_pos : 0 < (cosEighth : ℝ) :=
  Real.cos_pos_of_mem_Ioo ⟨by linarith [Real.pi_pos], by linarith [Real.pi_pos]⟩

theorem cosEighth_real_sq : (cosEighth : ℝ) ^ 2 = 1 / 2 := by
  have h : (cosEighth : ℝ) = √2 / 2 := Real.cos_pi_div_four
  rw [h, div_pow, Real.sq_sqrt zero_le_two]
  norm_num

end Scalar

end MagicCircle
