import MagicCircle.Diagram.Basic
import MagicCircle.Description.Symbol

/-!
# The grammar

Which texts describe which diagrams, without regard to how they are read. `GroupText n w d` says
that `w` is a bracketed group that describes `d` and has at most `n` groups inside each other, `BodyText`
the same of the components inside a group, and `Describes` of a whole text.
-/

namespace MagicCircle.Description

/-- `Head b w shape`: the characters `w`, after the opening bracket `b`, make a group of the given
shape. -/
inductive Head : Bracket → List Char → Shape → Prop
  | round : Head .round [] .spell
  | square : Head .square [] .unit
  | target : Head .angle ['T', ':'] (.triangle .target)
  | duration : Head .angle ['D', ':'] (.triangle .duration)
  | restriction : Head .angle ['R', ':'] (.triangle .restriction)

/-- `Composed shape components d`: the components, of which there are one or two, are those of `d`
in order. -/
inductive Composed (shape : Shape) : List Diagram → Diagram → Prop
  | solo (inner : Diagram) : Composed shape [inner] (.solo shape inner)
  | pair (first second : Diagram) : Composed shape [first, second] (.pair shape first second)

mutual

/-- A group: an opening bracket, what names its shape, its components, and its closing bracket. -/
inductive GroupText : Nat → List Char → Diagram → Prop
  | mk (n : Nat) (b : Bracket) (head body : List Char) (shape : Shape) (components : List Diagram)
      (d : Diagram) :
      Head b head shape → BodyText n body components → Composed shape components d →
      GroupText (n + 1) (b.opening :: (head ++ body ++ [b.closing])) d

/-- The components of a group, among separators. A rune is a whole run of word characters: none
follows it, and none comes before it, where the body starts or a separator or a bracket stands. -/
inductive BodyText : Nat → List Char → List Diagram → Prop
  | nil (n : Nat) : BodyText n [] []
  | separator (n : Nat) (c : Char) (rest : List Char) (ds : List Diagram) :
      isSeparator c = true → BodyText n rest ds → BodyText n (c :: rest) ds
  | rune (n : Nat) (word rest : List Char) (ds : List Diagram) :
      word ≠ [] → (∀ c ∈ word, isWordChar c = true) →
      (∀ c ∈ rest.head?, isWordChar c = false) → BodyText n rest ds →
      BodyText n (word ++ rest) (.rune (String.ofList word) :: ds)
  | group (n : Nat) (w rest : List Char) (d : Diagram) (ds : List Diagram) :
      GroupText n w d → BodyText n rest ds → BodyText n (w ++ rest) (d :: ds)

end

/-- A whole text: a spell with blanks around it, and at most `limit` groups inside each other. -/
def Describes (limit : Nat) (text : List Char) (d : Diagram) : Prop :=
  ∃ before w after : List Char, text = before ++ w ++ after ∧
    (∀ c ∈ before, isSpace c = true) ∧ (∀ c ∈ after, isSpace c = true) ∧
    GroupText limit w d ∧ d.shape? = some .spell

/-- A name that stands in the text and is made of word characters. -/
structure WordOf (text : List Char) (name : String) : Prop where
  nonempty : name.toList ≠ []
  isWordChar_of_mem : ∀ c ∈ name.toList, isWordChar c = true
  occurs : name.toList <:+: text

end MagicCircle.Description
