import MagicCircle.Description.Symbol
import MagicCircle.Diagram.Basic

/-!
# Tokens

The words of a text and the other characters in it, in order and without regard to how they belong
together. `Token.listing` is what they tell of a diagram by themselves: where its shapes and its runes
start, and in how many groups.
-/

namespace MagicCircle

/-- What a diagram is, apart from its components. -/
inductive Diagram.Label
  | rune (name : String)
  | shape (s : Shape)
  deriving DecidableEq, Repr

namespace Diagram

def label : Diagram → Label
  | rune name => .rune name
  | solo s _ => .shape s
  | pair s _ _ => .shape s

def Label.name? : Label → Option String
  | rune name => some name
  | shape _ => none

end Diagram

namespace Description

open Diagram (Label)

inductive Token
  /-- A run of word characters that no other word character touches. -/
  | word (w : List Char)
  /-- Any other character. -/
  | sign (c : Char)
  deriving DecidableEq, Repr

namespace Token

def ofPiece : List Char → Token
  | [c] => if isWordChar c then word [c] else sign c
  | w => word w

/-- What the tokens list, where `depth` groups are open before them. A round bracket is a spell, a
square one a unit, and an angle bracket the triangle that the word right after it is the mark of, if
it is one. Any other word is a rune. -/
def listing : Nat → List Token → List (Nat × Option Label)
  | _, [] => []
  | depth, word w :: ts => (depth, some (.rune (String.ofList w))) :: listing depth ts
  | depth, sign '(' :: ts => (depth, some (.shape .spell)) :: listing (depth + 1) ts
  | depth, sign '[' :: ts => (depth, some (.shape .unit)) :: listing (depth + 1) ts
  | depth, sign '<' :: word w :: ts =>
    (depth, (Triangle.ofMark? w).map fun t => .shape (.triangle t)) :: listing (depth + 1) ts
  | depth, sign '<' :: ts => (depth, none) :: listing (depth + 1) ts
  | depth, sign c :: ts => listing (if isClosing c then depth - 1 else depth) ts

/-- The words that do not come right after an angle bracket. Such a bracket comes right before the
tokens if `marked` is true. -/
def names (marked : Bool) : List Token → List String
  | [] => []
  | word w :: ts => if marked then names false ts else String.ofList w :: names false ts
  | sign c :: ts => names (c == '<') ts

end Token

/-- The tokens of a text, in order. -/
def tokens (text : List Char) : List Token :=
  (text.splitBy fun a b => isWordChar a && isWordChar b).map Token.ofPiece

end Description

end MagicCircle
