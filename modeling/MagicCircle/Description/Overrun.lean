import MagicCircle.Description.Delimiters
import MagicCircle.Description.Reader

/-!
# Brackets that open one group too many

Where a text goes beyond a limit, told from the text before that place: a reader without limits gets
there, inside as many groups as there may be.
-/

namespace MagicCircle.Description

open Text (byteCount)

/-- Reading the text stops at its end, inside a group. -/
def EndsInGroup (limit : Nat) (text : List Char) : Prop :=
  ∃ c o, read limit text = .error (.fault (.unterminated c o))

/-- After the text as many groups are open as there may be, and the bracket would open another. If
there may be none, the bracket is the one that a description starts with. -/
def Overruns (limit unlimited : Nat) (text : List Char) (b : Bracket) : Prop :=
  if limit = 0 then (∀ a ∈ text, isSpace a = true) ∧ b = .round
  else EndsInGroup unlimited text ∧ (unmatched text).length = limit

/-- A bracket that opens one group too many stands at `o`. -/
def OverrunAt (limit unlimited : Nat) (text : List Char) (o : Nat) : Prop :=
  ∃ before b rest, text = before ++ Bracket.opening b :: rest ∧ byteCount before = o ∧
    Overruns limit unlimited before b

end MagicCircle.Description
