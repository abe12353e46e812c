import MagicCircle.Description.Fault
import MagicCircle.Description.Symbol
import MagicCircle.Text.Tail

/-!
# What more text can change

A text that has been refused may be the beginning of one that is read, but only if it was refused at
its end.
-/

namespace MagicCircle.Description

/-- Whether the fault is found at the character that it names. -/
def Fault.isAtCharacter : Fault → Bool
  | malformed .. | trailingInput _ | unexpectedChar .. | mismatchedClose ..
  | definitionsUnsupported _ | tooDeep .. => true
  | noDescription | unterminated .. | missingMark _ | unknownMark .. => false

/-- The text was refused at its end: before its description, inside a group, or in a mark. -/
inductive Unfinished (text : List Char) : ReadError → Prop
  | noDescription : Unfinished text (.fault .noDescription)
  | unterminated (c : Char) (o : Nat) : Unfinished text (.fault (.unterminated c o))
  | missingMark (o : Nat) : Text.skipWhile isWordChar text o = Text.byteCount text →
      Unfinished text (.fault (.missingMark o))

end MagicCircle.Description
