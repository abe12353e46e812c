import MagicCircle.Decimal.Shortest
import MagicCircle.Json.Value

/-!
# Doubles as JSON values
-/

namespace MagicCircle.Json

/-- In files and logs, numbers from a hundred-thousandth up to, but not including, ten to the
sixteenth have no power of ten. Other numbers have the point after their first digit, if more digits
follow. A whole number without a power of ten ends in `.0`, and a tie goes to the even digit. -/
def style : Decimal.Style where
  tie := .toEven
  positional e := -5 ≤ e && e < 16
  wholeFraction := [0]

/-- A double as a JSON value; one that is not finite is `null`. -/
def Value.ofFloat (x : Float) : Value :=
  match style.numeral? x with
  | some n => .number n
  | none => .null

def Value.ofMembers (members : List (String × Value)) : Value :=
  .object (members.map fun m => (some m.1, m.2))

def Value.ofText (s : String) : Value := .string (some s)

def Value.ofNat (n : Nat) : Value := .number ⟨false, Decimal.digits n, [], none⟩

end MagicCircle.Json
