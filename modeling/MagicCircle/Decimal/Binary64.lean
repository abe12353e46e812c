/-!
# Binary64 numbers taken apart

A finite double is a sign, a mantissa and a power of two.
-/

namespace MagicCircle.Decimal

inductive Binary64
  | nan
  | infinite (negative : Bool)
  /-- The number `mantissa · 2 ^ exponent`, with its sign. -/
  | finite (negative : Bool) (mantissa : Nat) (exponent : Int)
  deriving DecidableEq, Repr

namespace Binary64

/-- The mantissa at which the exponent steps up. -/
def leastNormal : Nat := Nat.pow 2 52

def leastExponent : Int := -1074

/-- Takes the 64 bits of a double apart: one for the sign, eleven for the exponent, the rest for the
mantissa, whose leading one is left out unless the number is subnormal. -/
def ofBits (bits : UInt64) : Binary64 :=
  let n := bits.toNat
  let negative : Bool := n / Nat.pow 2 63 = 1
  let e := n / Nat.pow 2 52 % Nat.pow 2 11
  let m := n % Nat.pow 2 52
  if e = 2047 then if m = 0 then infinite negative else nan
  else if e = 0 then finite negative m leastExponent
  else finite negative (leastNormal + m) (leastExponent + ((e - 1 : Nat) : Int))

def ofFloat (x : Float) : Binary64 := ofBits x.toBits

end Binary64

end MagicCircle.Decimal
