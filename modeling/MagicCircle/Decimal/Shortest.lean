import MagicCircle.Decimal.Binary64
import MagicCircle.Decimal.Numeral

/-!
# The shortest decimal of a double

A double is written with the fewest digits that still read back as it: of the decimals with that
many digits the one nearest to it, and of two equally near ones the one that the style prefers.
The search is in exact arithmetic on whole numbers.
-/

namespace MagicCircle.Decimal

/-- Which of two equally near decimals is written. -/
inductive Tie
  | up
  | toEven
  deriving DecidableEq, Repr

structure Style where
  tie : Tie
  /-- Whether a number whose first digit stands for this power of ten is written without one. -/
  positional : Int → Bool
  wholeFraction : List Nat

namespace Shortest

/-- The number `d · 10 ^ k`, scaled so that it can be compared with `binary k p x`. -/
def decimal (k p : Int) (d : Nat) : Nat := d * Nat.pow 10 k.toNat * Nat.pow 2 (-p).toNat

/-- The number `x · 2 ^ p`, scaled so that it can be compared with `decimal k p d`. -/
def binary (k p : Int) (x : Nat) : Nat := x * Nat.pow 2 p.toNat * Nat.pow 10 (-k).toNat

/-- Whether `d · 10 ^ k` reads back as `m · 2 ^ q`: it lies between the points halfway to the two
neighbouring doubles, or on one of them if `m` is even. The double below is nearer when `m` is the
least mantissa of its exponent. -/
def readsBack (m : Nat) (q : Int) (k : Int) (d : Nat) : Bool :=
  let p := q - 2
  let below :=
    if m = Binary64.leastNormal ∧ Binary64.leastExponent < q then 4 * m - 1 else 4 * m - 2
  let above := 4 * m + 2
  let x := decimal k p d
  if m % 2 = 0 then binary k p below ≤ x && x ≤ binary k p above
  else binary k p below < x && x < binary k p above

/-- The power of ten of the first digit of `m · 2 ^ q`, which must not be less than `10 ^ -400`. -/
def magnitude (m : Nat) (q : Int) : Int :=
  let shifted := binary (-400) q m / decimal (-400) q 1
  (Nat.toDigits 10 shifted).length - 1 - 400

/-- The nearest multiple of `10 ^ k` to `m · 2 ^ q` among those that read back as it. -/
def onGrid? (tie : Tie) (m : Nat) (q : Int) (k : Int) : Option Nat :=
  let d := binary k q m / decimal k q 1
  match readsBack m q k d, readsBack m q k (d + 1) with
  | false, false => none
  | true, false => some d
  | false, true => some (d + 1)
  | true, true =>
    let twice := 2 * binary k q m
    let middle := decimal k q (2 * d + 1)
    if twice < middle then some d
    else if middle < twice then some (d + 1)
    else match tie with
      | .up => some (d + 1)
      | .toEven => if d % 2 = 0 then some d else some (d + 1)

def exact (m : Nat) (q : Int) : Nat × Int :=
  if 0 ≤ q then (m * Nat.pow 2 q.toNat, 0) else (m * Nat.pow 5 (-q).toNat, q)

/-- The shortest decimal `d · 10 ^ k` of the double `m · 2 ^ q`, where `m` is not zero. Seventeen
digits are always enough. -/
def decimalOf (tie : Tie) (m : Nat) (q : Int) : Nat × Int :=
  let top := magnitude m q
  let grids := (List.range 17).map fun n : Nat => top - (n : Int)
  (grids.findSome? fun k => (onGrid? tie m q k).map (·, k)).getD (exact m q)

end Shortest

def dropFinalZeros (ds : List Nat) : List Nat :=
  (ds.reverse.dropWhile (· == 0)).reverse

/-- The numeral, in the given style, of the number with the digits `ds`, the first of which stands
for `10 ^ top`. -/
def Style.numeral (style : Style) (negative : Bool) (ds : List Nat) (top : Int) : Numeral :=
  if style.positional top then
    if top < 0 then
      ⟨negative, [0], List.replicate ((-top).toNat - 1) 0 ++ ds, none⟩
    else
      let places := top.toNat + 1
      let whole := ds.take places ++ List.replicate (places - ds.length) 0
      let fraction := ds.drop places
      ⟨negative, whole, if fraction = [] then style.wholeFraction else fraction, none⟩
  else ⟨negative, ds.take 1, ds.drop 1, some top⟩

def Style.ofFinite (style : Style) (negative : Bool) (m : Nat) (q : Int) : Numeral :=
  if m = 0 then ⟨negative, [0], style.wholeFraction, none⟩
  else
    let (d, k) := Shortest.decimalOf style.tie m q
    let ds := digits d
    style.numeral negative (dropFinalZeros ds) (k + ds.length - 1)

def Style.numeral? (style : Style) (x : Float) : Option Numeral :=
  match Binary64.ofFloat x with
  | .finite negative m q => some (style.ofFinite negative m q)
  | _ => none

/-- In messages numbers never have a power of ten, whole numbers have no point, and a tie goes
up. -/
def messageStyle : Style := ⟨.up, fun _ => true, []⟩

def messageText (x : Float) : String :=
  match Binary64.ofFloat x with
  | .nan => "NaN"
  | .infinite negative => if negative then "-inf" else "inf"
  | .finite negative m q => (messageStyle.ofFinite negative m q).text

end MagicCircle.Decimal
