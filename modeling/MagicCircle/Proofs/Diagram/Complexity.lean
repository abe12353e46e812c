import MagicCircle.Exact.Gauge

/-!
# Complexity is height

The logarithm in the complexity of a shape is that of zero or of one, and never more than what the
deepest component counts for. So over the extended reals a diagram's complexity is the largest
number of shapes around one of its runes.
-/

namespace MagicCircle

namespace Gauge

theorem num_sub_num_self (n : Nat) : (num n : EReal) - num n = 0 := by
  change (n : EReal) - (n : EReal) = 0
  rw [← EReal.coe_natCast, ← EReal.coe_sub, sub_self, EReal.coe_zero]

theorem num_two_sub_num_one : (num 2 : EReal) - num 1 = 1 := by
  change ((2 : ℕ) : EReal) - ((1 : ℕ) : EReal) = 1
  rw [← EReal.coe_natCast, ← EReal.coe_natCast, ← EReal.coe_sub]
  norm_num

theorem log2_zero : log2 (0 : EReal) = ⊥ := if_pos le_rfl

theorem log2_one : log2 (1 : EReal) = 0 := by
  change (if (1 : EReal) ≤ 0 then ⊥ else if (1 : EReal) = ⊤ then ⊤
    else ((Real.logb 2 (1 : EReal).toReal : ℝ) : EReal)) = 0
  have htop : (1 : EReal) ≠ ⊤ := EReal.coe_ne_top 1
  rw [if_neg (by norm_num), if_neg htop]
  simp

end Gauge

namespace Diagram

theorem complexityAround_one (h : ℕ) : complexityAround (h : EReal) 1 = (h + 1 : ℕ) := by
  rw [complexityAround, Gauge.num_sub_num_self, Gauge.log2_zero]
  change max ((h : EReal) + (1 : ℕ)) ⊥ = _
  simp

theorem complexityAround_two (h : ℕ) : complexityAround (h : EReal) 2 = (h + 1 : ℕ) := by
  rw [complexityAround, Gauge.num_two_sub_num_one, Gauge.log2_one]
  change max ((h : EReal) + (1 : ℕ)) 0 = _
  rw [max_eq_left (by positivity)]
  push_cast
  rfl

theorem complexity_eq_height : ∀ d : Diagram, (d.complexity : EReal) = d.height
  | rune _ => rfl
  | solo _ d => by
    rw [complexity, complexity_eq_height d, complexityAround_one, height]
  | pair _ d e => by
    have hmax : max (d.height : EReal) (e.height : EReal) = (max d.height e.height : ℕ) :=
      (Nat.mono_cast.map_max).symm
    rw [complexity, complexity_eq_height d, complexity_eq_height e, height,
      ← complexityAround_two, ← hmax]

end Diagram

end MagicCircle
