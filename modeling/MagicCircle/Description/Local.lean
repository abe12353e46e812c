import MagicCircle.Description.Delimiters
import MagicCircle.Description.Reader

/-!
# Reading from a place in a text

A group, or the components in one, read from any byte of a text on, with the number of bytes that
they take up. Where no character starts there is nothing to read.
-/

namespace MagicCircle.Description

open Text (Tail suffixAt?)

/-- The tail of a text from byte `start` on; an empty one, if no character starts there. -/
def tailFrom (text : List Char) (start : Nat) : Tail := ⟨start, (suffixAt? text start).getD []⟩

/-- Reads the group whose bracket stands at byte `start`, the `depth`-th group there counting those
around it. -/
def groupFrom (limit : Nat) (text : List Char) (start depth : Nat) :
    Except ReadError (Diagram × Nat) :=
  match (tailFrom text start).chars with
  | [] => .error (.fault (.unterminated Bracket.round.opening start))
  | c :: cs =>
    if c = definitionMark then .error (.fault (.definitionsUnsupported start))
    else match Bracket.ofOpening? c with
      | some b =>
        (group limit depth b start ⟨start + 1, cs⟩).map fun p => (p.1, p.2.val.offset - start)
      | none =>
        if limit < depth then .error (.fault (.tooDeep limit start))
        else .error (.fault (.unexpectedChar c start))

/-- Reads components from byte `start` on, inside the `depth`-th group. -/
def componentsFrom (limit : Nat) (text : List Char) (start depth : Nat) :
    Except ReadError (List Diagram × Nat) :=
  (body limit depth (tailFrom text start)).map fun p => (p.1, p.2.val.offset - start)

/-- The characters from an opening bracket to the one that closes it: all brackets among them are
matched, and those of no smaller part that starts with the same bracket are. -/
structure Enclosed (b : Bracket) (w : List Char) : Prop where
  ends : ∃ inner, w = b.opening :: (inner ++ [b.closing])
  balanced : unmatched w = []
  least : ∀ u v, w = u ++ v → u ≠ [] → v ≠ [] → unmatched u ≠ []

/-- The characters before the first closing bracket that matches none of the brackets among them, or
all characters if there is no such bracket; `rest` is what comes after them. -/
structure UpToClosing (w rest : List Char) : Prop where
  balanced : unmatched w = []
  /-- No part with the same beginning has an unmatched closing bracket. -/
  opening : ∀ u v, w = u ++ v → ∀ d ∈ unmatched u, isClosing d.symbol = false
  closing : ∀ c ∈ rest.head?, isClosing c = true ∧
    unmatched (w ++ [c]) = [⟨c, Text.byteCount w⟩]

end MagicCircle.Description
