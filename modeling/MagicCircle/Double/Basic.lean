import Mathlib.Algebra.Order.Field.Power
import Mathlib.Algebra.Order.Ring.Rat

/-!
# What doubles stand for

A finite double stands for a rational number. The result of an operation on doubles is near the
exact result.
-/

namespace MagicCircle.Double

open Float.Model

/-- As long as no exact result is greater, none of the rounded ones is infinite. -/
def huge : ℚ := 2 ^ (1022 : Int)

/-- The least positive double. -/
def tiny : ℚ := 2 ^ (-1074 : Int)

/-- What a number in the unpacked form stands for; zero, if it is not finite. -/
def ofUnpacked : UnpackedFloat → ℚ
  | .finite s m e _ => s.apply m * 2 ^ e
  | _ => 0

@[simp] theorem ofUnpacked_zero (s : UnpackedFloat.Sign) : ofUnpacked (.zero s) = 0 := rfl

@[simp] theorem ofUnpacked_finite (s : UnpackedFloat.Sign) (m : Nat) (e : Int) (hp : 0 < m) :
    ofUnpacked (.finite s m e hp) = s.apply m * 2 ^ e := rfl

def value (x : Float) : ℚ := ofUnpacked x.toModel.unpack

/-- The mantissas and exponents that doubles have. -/
structure Canonical (m : Nat) (e : Int) : Prop where
  pos : 0 < m
  lt : m < 2 ^ 53
  normal_or_least : 2 ^ 52 ≤ m ∨ e = -1074
  least_le : -1074 ≤ e
  le_most : e ≤ 971

/-- The mantissa `r` is left of `m` when the last `k` bits are cut off and what they say is rounded;
the exponent goes from `e` to `t`. -/
structure CutTo (m : Nat) (e : Int) (r k : Nat) (t : Int) : Prop where
  exponent : t = e + k
  target : t = max (m.log2 + e - 52) (-1074)
  low : m / 2 ^ k ≤ r
  high : r ≤ m / 2 ^ k + 1
  most : r ≤ 2 ^ 53
  normal_or_least : 2 ^ 52 ≤ r ∨ t = -1074

def finiteOrZero (s : UnpackedFloat.Sign) (m : Nat) (e : Int) : UnpackedFloat :=
  if h : m = 0 then .zero s else .finite s m e (Nat.pos_of_ne_zero h)

/-- The number with a rounded mantissa. If that has one bit too many, the exponent steps up. -/
def rounded (s : UnpackedFloat.Sign) (r : Nat) (t : Int) : UnpackedFloat :=
  if r < 2 ^ 53 then finiteOrZero s r t else finiteOrZero s (2 ^ 52) (t + 1)

/-- The double is as near to the exact result as rounding leaves it, by one unit in the last place
or by the least double. -/
structure Near (x : Float) (z : ℚ) : Prop where
  finite : x.isFinite = true
  error : |value x - z| ≤ |z| / 2 ^ 52 + tiny

/-- The same of a result that has not been packed yet. -/
structure Fits (u : UnpackedFloat) (z : ℚ) : Prop where
  unpack_pack : UnpackedFloat.unpack Format.binary64 (UnpackedFloat.pack Format.binary64 u) = u
  finite : u.isFinite = true
  error : |ofUnpacked u - z| ≤ |z| / 2 ^ 52 + tiny

end MagicCircle.Double
