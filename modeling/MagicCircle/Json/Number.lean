import MagicCircle.Decimal.Numeral

/-!
# Numbers in files

How a numeral in a file becomes a double. Its digits are gathered in a 64-bit word as long as they
fit, and the word is then scaled by powers of ten, one rounding a step. The result need not be the
double nearest to the numeral.
-/

namespace MagicCircle.Json

open Decimal (Numeral)

def greatestWord : Nat := UInt64.size - 1

/-- Appends digits to a word as long as the result fits; returns the word and the digits left. -/
def gather (word : Nat) : List Nat → Nat × List Nat
  | [] => (word, [])
  | d :: ds => if greatestWord < word * 10 + d then (word, d :: ds) else gather (word * 10 + d) ds

/-- The word of a numeral's digits and the power of ten that goes with it. A digit before the point
that does not fit counts as one power of ten; from the first one after the point that does not fit
on, digits are dropped. -/
def significand (n : Numeral) : Nat × Int :=
  let (word, left) := gather 0 n.whole
  let (word, dropped) := gather word n.fraction
  (word, (left.length : Int) - ((n.fraction.length - dropped.length : Nat) : Int))

def powerOfTen (k : Nat) : Float := Float.ofScientific 1 false k

/-- The largest power of ten that is a double. -/
def greatestPower : Nat := 308

/-- Scales a number by a power of ten, by at most the largest one at a time. There is no result
beyond the largest double. -/
def rescale? (x : Float) (e : Int) : Option Float :=
  if e.natAbs ≤ greatestPower then
    if 0 ≤ e then
      let y := x * powerOfTen e.toNat
      if y.isInf then none else some y
    else some (x / powerOfTen e.natAbs)
  else if x == 0 then some x
  else if 0 ≤ e then none
  else rescale? (x / powerOfTen greatestPower) (e + greatestPower)
termination_by e.natAbs
decreasing_by
  simp only [greatestPower] at *
  omega

/-- The greatest power of ten that is told from greater ones. -/
def greatestExponent : Int := 2147483647

def magnitude? (n : Numeral) : Option Float :=
  let (word, start) := significand n
  let e := n.exponent.getD 0
  if greatestExponent < e then if word = 0 then some 0 else none
  else if e < -greatestExponent then some 0
  else
    let scaled := max (-greatestExponent - 1) (min greatestExponent (start + e))
    rescale? (Float.ofNat word) scaled

/-- The double that a numeral in a file stands for, if it is not too large for one. -/
def float? (n : Numeral) : Option Float :=
  (magnitude? n).map fun x => if n.negative then -x else x

end MagicCircle.Json
