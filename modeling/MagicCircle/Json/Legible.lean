import MagicCircle.Decimal.Fraction
import MagicCircle.Json.Reader

/-!
# Values that can be read back

A value is legible if its numbers are written as the grammar has them and its strings are texts. A
number is read up to the first character that cannot belong to it.
-/

namespace MagicCircle

namespace Decimal.Numeral

/-- The digits after the point, and the point, if there are any. -/
def fractionChars (ds : List Nat) : List Char := if ds = [] then [] else '.' :: digitChars ds

/-- The power of ten as it is written. -/
def exponentChars : Option Int → List Char
  | none => []
  | some e => 'e' :: (if e < 0 then '-' else '+') :: digitChars (digits e.natAbs)

theorem chars_eq (n : Numeral) : n.chars = (if n.negative then ['-'] else []) ++
    digitChars n.whole ++ fractionChars n.fraction ++ exponentChars n.exponent := by
  unfold chars
  rcases n.exponent with _ | e <;> rfl

end Decimal.Numeral

namespace Json

/-- The reading gave `b` and left `rest`. -/
def Reads {β : Type} {cs : List Char} (o : Option (β × Rest cs)) (b : β) (rest : List Char) : Prop :=
  ∃ h, o = some (b, ⟨rest, h⟩)

/-- A number ends before this text. -/
def EndsNumber (rest : List Char) : Prop :=
  ∀ c ∈ rest.head?, c.isDigit = false ∧ c ≠ '.' ∧ c ≠ 'e' ∧ c ≠ 'E'

mutual

def Value.Legible : Value → Prop
  | .number n => n.Legible
  | .string s => s.isSome
  | .array vs => ItemsLegible vs
  | .object ms => MembersLegible ms
  | _ => True

def ItemsLegible : List Value → Prop
  | [] => True
  | v :: vs => v.Legible ∧ ItemsLegible vs

def MembersLegible : List (Option String × Value) → Prop
  | [] => True
  | (key, v) :: ms => key.isSome ∧ v.Legible ∧ MembersLegible ms

end

end Json

end MagicCircle
