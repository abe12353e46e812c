import MagicCircle.Description.Fault
import MagicCircle.Description.Symbol

/-!
# Text that is put in

Where the places of a text are after more text has been put into it, and what that makes of its
faults.
-/

namespace MagicCircle.Description

/-- Where the place `o` is after `count` bytes have been put in at `start`. -/
def movedFrom (start count o : Nat) : Nat := if start ≤ o then o + count else o

def Fault.mapOffset (f : Nat → Nat) : Fault → Fault
  | noDescription => noDescription
  | malformed c o => malformed c (f o)
  | trailingInput o => trailingInput (f o)
  | unexpectedChar c o => unexpectedChar c (f o)
  | mismatchedClose e c o => mismatchedClose e c (f o)
  | unterminated c o => unterminated c (f o)
  | missingMark o => missingMark (f o)
  | unknownMark m o => unknownMark m (f o)
  | definitionsUnsupported o => definitionsUnsupported (f o)
  | tooDeep l o => tooDeep l (f o)

/-- The same error where places have moved. -/
def ReadError.mapOffset (f : Nat → Nat) : ReadError → ReadError
  | fault x => fault (x.mapOffset f)
  | structural e => structural e

/-- No word goes on from the one text into the other. -/
def Unjoined (u v : List Char) : Prop :=
  ∀ a ∈ u.getLast?, ∀ b ∈ v.head?, ¬ (isWordChar a = true ∧ isWordChar b = true)

end MagicCircle.Description
