import MagicCircle.Decimal.Numeral

/-!
# Numbers that people write

The forms in which settings may give a number. No blanks are allowed around it.
-/

namespace MagicCircle.Decimal

/-- Splits off a sign, and says whether it is a minus. -/
def spanSign : List Char → Bool × List Char
  | '+' :: cs => (false, cs)
  | '-' :: cs => (true, cs)
  | cs => (false, cs)

/-- Splits off the digits after a point; without a point there are none. -/
def spanFraction : List Char → List Nat × List Char
  | '.' :: cs => spanDigits cs
  | cs => ([], cs)

/-- Reads a power of ten that takes up the whole text: `e`, perhaps a sign, and digits. An empty
text has none. -/
def readExponent? : List Char → Option (Option Int)
  | [] => some none
  | c :: cs =>
    if c = 'e' ∨ c = 'E' then
      let (negative, cs) := spanSign cs
      let (ds, cs) := spanDigits cs
      if ds = [] ∨ cs ≠ [] then none
      else
        let e : Int := ofDigits ds
        some (some (if negative then -e else e))
    else none

/-- Reads an unsigned numeral that takes up the whole text. There must be a digit before or after
the point. -/
def readNumeral? (negative : Bool) (cs : List Char) : Option Numeral :=
  let (whole, cs) := spanDigits cs
  let (fraction, cs) := spanFraction cs
  if whole = [] ∧ fraction = [] then none
  else (readExponent? cs).map fun e => ⟨negative, whole, fraction, e⟩

/-- Reads a number: a decimal numeral, or the name of infinity or of the number that is none, in
letters of either case. -/
def readFloat? (cs : List Char) : Option Float :=
  let (negative, rest) := spanSign cs
  let signed (x : Float) : Float := if negative then -x else x
  match rest.map Char.toLower with
  | ['i', 'n', 'f'] | ['i', 'n', 'f', 'i', 'n', 'i', 't', 'y'] =>
    some (signed (Float.ofBits 0x7ff0000000000000))
  | ['n', 'a', 'n'] => some (Float.ofBits 0x7ff8000000000000)
  | _ => (readNumeral? negative rest).map Numeral.nearest

def greatestNatural : Nat := UInt64.size - 1

/-- Reads a natural number up to the greatest one: digits, with perhaps a plus before them. -/
def readNatural? (cs : List Char) : Option Nat :=
  let cs := match cs with
    | '+' :: rest => rest
    | _ => cs
  let (ds, rest) := spanDigits cs
  let n := ofDigits ds
  if ds = [] ∨ rest ≠ [] ∨ greatestNatural < n then none else some n

end MagicCircle.Decimal
