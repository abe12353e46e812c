import MagicCircle.Decimal.Numeral

/-!
# JSON values

Numbers are kept as they are written, since readers differ in what they make of them.
-/

namespace MagicCircle.Json

open Decimal (Numeral)

/-- A JSON value. A string is `none` if its escapes name a lone half of a surrogate pair, so that it
is no text. Members keep their order, and keys may repeat. -/
inductive Value
  | null
  | bool (b : Bool)
  | number (n : Numeral)
  | string (s : Option String)
  | array (items : List Value)
  | object (members : List (Option String × Value))
  deriving Repr

mutual

/-- Whether there is a `null` in the value. A string that is no text cannot be written but as one. -/
def Value.hasNull : Value → Bool
  | .null => true
  | .string s => s.isNone
  | .array vs => itemsHaveNull vs
  | .object ms => membersHaveNull ms
  | _ => false

def itemsHaveNull : List Value → Bool
  | [] => false
  | v :: vs => v.hasNull || itemsHaveNull vs

def membersHaveNull : List (Option String × Value) → Bool
  | [] => false
  | (_, v) :: ms => v.hasNull || membersHaveNull ms

end

end MagicCircle.Json
