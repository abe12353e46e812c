import MagicCircle.Description.Delimiters
import MagicCircle.Description.Reader

/-!
# What faults say about a text

`Shows limit text f` is what the fault `f` says of the text, where at most `limit` groups may stand
inside each other. The place of a fault is given by the text before it.
-/

namespace MagicCircle.Description

open Text (byteCount)

inductive Shows (limit : Nat) : List Char → Fault → Prop
  /-- There are only blanks. -/
  | noDescription {text : List Char} :
      (∀ a ∈ text, isSpace a = true) → Shows limit text .noDescription
  /-- The first character that is not blank is no round bracket. -/
  | malformed {before rest : List Char} {c : Char} :
      (∀ a ∈ before, isSpace a = true) → isSpace c = false → c ≠ Bracket.round.opening →
      Shows limit (before ++ c :: rest) (.malformed c (byteCount before))
  /-- A description is complete, and something else than a blank follows it. -/
  | trailingInput {before rest : List Char} {c : Char} {d : Diagram} :
      read limit before = .ok d → isSpace c = false →
      Shows limit (before ++ c :: rest) (.trailingInput (byteCount before))
  /-- The character means nothing inside a group. -/
  | unexpectedChar {before rest : List Char} {c : Char} :
      unmatched before ≠ [] → isSeparator c = false → isWordChar c = false →
      Bracket.ofOpening? c = none → isClosing c = false → c ≠ definitionMark →
      Shows limit (before ++ c :: rest) (.unexpectedChar c (byteCount before))
  /-- The closing bracket is not the one of the innermost open group. -/
  | mismatchedClose {before rest : List Char} {c : Char} {b : Bracket} {o : Nat}
      {outer : List Delimiter} :
      unmatched before = ⟨b.opening, o⟩ :: outer → isClosing c = true → c ≠ b.closing →
      Shows limit (before ++ c :: rest) (.mismatchedClose b.closing c (byteCount before))
  /-- The text ends inside the group that the bracket opens, and inside no group in it. -/
  | unterminated {before rest : List Char} {b : Bracket} {outer : List Delimiter} :
      unmatched (before ++ b.opening :: rest) = ⟨b.opening, byteCount before⟩ :: outer →
      Shows limit (before ++ b.opening :: rest) (.unterminated b.opening (byteCount before))
  /-- The word after the angle bracket is empty, or no colon follows it. -/
  | missingMark {before rest : List Char} :
      (rest.takeWhile isWordChar = [] ∨ ':' ∉ (rest.dropWhile isWordChar).head?) →
      Shows limit (before ++ Bracket.angle.opening :: rest) (.missingMark (byteCount before + 1))
  /-- The word between the angle bracket and the colon is none of the three marks. -/
  | unknownMark {before word rest : List Char} :
      word ≠ [] → (∀ a ∈ word, isWordChar a = true) → word ∉ [['T'], ['D'], ['R']] →
      Shows limit (before ++ Bracket.angle.opening :: (word ++ ':' :: rest))
        (.unknownMark (String.ofList word) (byteCount before + 1))
  /-- A definition would start inside a group. -/
  | definitionsUnsupported {before rest : List Char} :
      unmatched before ≠ [] →
      Shows limit (before ++ definitionMark :: rest)
        (.definitionsUnsupported (byteCount before))
  /-- A group would start where as many groups are open as there may be. -/
  | tooDeep {before rest : List Char} {b : Bracket} :
      (unmatched before).length = limit →
      Shows limit (before ++ b.opening :: rest) (.tooDeep limit (byteCount before))

end MagicCircle.Description
