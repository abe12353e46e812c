/-!
# Decimal numerals

A numeral is a decimal number as it is written: a sign, digits before and after the point, and
perhaps a power of ten.
-/

namespace MagicCircle.Decimal

structure Numeral where
  negative : Bool
  whole : List Nat
  /-- The digits after the point; there is no point if there are none. -/
  fraction : List Nat
  /-- The power of ten, if one is written. -/
  exponent : Option Int
  deriving DecidableEq, Repr

def digitValue (c : Char) : Nat := c.toNat - '0'.toNat

def ofDigits (ds : List Nat) : Nat := ds.foldl (fun n d => n * 10 + d) 0

/-- The digits of a number, without leading zeros. -/
def digits (n : Nat) : List Nat := (Nat.toDigits 10 n).map digitValue

def spanDigits (cs : List Char) : List Nat × List Char :=
  ((cs.takeWhile Char.isDigit).map digitValue, cs.dropWhile Char.isDigit)

namespace Numeral

def digitChars (ds : List Nat) : List Char := ds.map Nat.digitChar

/-- The numeral as text; a power of ten always has a sign. -/
def chars (n : Numeral) : List Char :=
  (if n.negative then ['-'] else []) ++ digitChars n.whole
    ++ (if n.fraction = [] then [] else '.' :: digitChars n.fraction)
    ++ (match n.exponent with
      | none => []
      | some e => 'e' :: (if e < 0 then '-' else '+') :: digitChars (digits e.natAbs))

def text (n : Numeral) : String := String.ofList n.chars

/-- The numeral's digits read as one number, with the power of ten that goes with them. -/
def scaled (n : Numeral) : Nat × Int :=
  (ofDigits (n.whole ++ n.fraction), n.exponent.getD 0 - n.fraction.length)

/-- The double nearest to a numeral. Numbers with more than 400 digits before the point are
infinite, those that start more than 400 places after it are zero. -/
def nearest (n : Numeral) : Float :=
  let (m, e) := n.scaled
  let magnitude : Float :=
    if m = 0 then 0
    else
      let places : Int := (digits m).length + e
      if 400 < places then Float.ofBits 0x7ff0000000000000
      else if places < -400 then 0
      else if 0 ≤ e then Float.ofScientific m false e.toNat
      else Float.ofScientific m true (-e).toNat
  if n.negative then -magnitude else magnitude

end Numeral

end MagicCircle.Decimal
