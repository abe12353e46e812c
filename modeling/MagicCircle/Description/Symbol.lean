/-!
# Symbols of the notation

The characters that the notation gives a meaning to. All of them are ASCII; any other character is
foreign to it.
-/

namespace MagicCircle.Description

/-- Blank characters, allowed around the description and between components. -/
def isSpace (c : Char) : Bool := c == ' ' || c == '\t' || c == '\n'

/-- What separates components: blanks and slashes. -/
def isSeparator (c : Char) : Bool := isSpace c || c == '/'

/-- What names and marks are made of: ASCII letters, digits and the underscore. -/
def isWordChar (c : Char) : Bool := c.isAlphanum || c == '_'

inductive Bracket
  /-- Around a spell. -/
  | round
  /-- Around a unit. -/
  | square
  /-- Around a triangle. -/
  | angle
  deriving DecidableEq, Repr

namespace Bracket

def opening : Bracket → Char
  | round => '('
  | square => '['
  | angle => '<'

def closing : Bracket → Char
  | round => ')'
  | square => ']'
  | angle => '>'

def ofOpening? : Char → Option Bracket
  | '(' => some round
  | '[' => some square
  | '<' => some angle
  | _ => none

end Bracket

def isClosing (c : Char) : Bool := c == ')' || c == ']' || c == '>'

/-- What would open a definition, which the notation reserves. -/
def definitionMark : Char := '\x7b'

/-! Each symbol is of one kind only. -/

namespace Bracket

@[simp] theorem isSeparator_opening (b : Bracket) : isSeparator b.opening = false := by
  cases b <;> rfl

@[simp] theorem isClosing_opening (b : Bracket) : isClosing b.opening = false := by
  cases b <;> rfl

theorem opening_ne_definitionMark (b : Bracket) : b.opening ≠ definitionMark := by
  cases b <;> decide

@[simp] theorem ofOpening?_opening (b : Bracket) : ofOpening? b.opening = some b := by
  cases b <;> rfl

theorem eq_opening_of_ofOpening? {c : Char} {b : Bracket} (h : ofOpening? c = some b) :
    c = b.opening := by
  unfold ofOpening? at h
  split at h <;> cases h <;> rfl

theorem opening_injective : Function.Injective opening := by
  intro b b' h
  have hb := ofOpening?_opening b
  rw [h, ofOpening?_opening] at hb
  exact (Option.some.inj hb).symm

@[simp] theorem isClosing_closing (b : Bracket) : isClosing b.closing = true := by
  cases b <;> rfl

@[simp] theorem utf8Size_opening (b : Bracket) : b.opening.utf8Size = 1 := by
  cases b <;> rfl

@[simp] theorem utf8Size_closing (b : Bracket) : b.closing.utf8Size = 1 := by
  cases b <;> rfl

end Bracket

theorem isSeparator_of_isClosing {c : Char} (h : isClosing c = true) : isSeparator c = false := by
  simp only [isClosing, Bool.or_eq_true, beq_iff_eq] at h
  rcases h with (rfl | rfl) | rfl <;> rfl

theorem isWordChar_of_isClosing {c : Char} (h : isClosing c = true) : isWordChar c = false := by
  simp only [isClosing, Bool.or_eq_true, beq_iff_eq] at h
  rcases h with (rfl | rfl) | rfl <;> rfl

section WordChar

variable {c : Char} (h : isWordChar c = true)
include h

theorem ne_of_isWordChar {d : Char} (hd : isWordChar d = false) : c ≠ d := by
  rintro rfl
  rw [h] at hd
  cases hd

theorem isSeparator_of_isWordChar : isSeparator c = false := by
  simp only [isSeparator, isSpace, Bool.or_eq_false_iff, beq_eq_false_iff_ne]
  exact ⟨⟨⟨ne_of_isWordChar h rfl, ne_of_isWordChar h rfl⟩, ne_of_isWordChar h rfl⟩,
    ne_of_isWordChar h rfl⟩

theorem isClosing_of_isWordChar : isClosing c = false := by
  simp only [isClosing, Bool.or_eq_false_iff, beq_eq_false_iff_ne]
  exact ⟨⟨ne_of_isWordChar h rfl, ne_of_isWordChar h rfl⟩, ne_of_isWordChar h rfl⟩

theorem ofOpening?_of_isWordChar : Bracket.ofOpening? c = none := by
  rcases hb : Bracket.ofOpening? c with _ | b
  · rfl
  · have hne := ne_of_isWordChar h (d := b.opening) (by cases b <;> rfl)
    exact absurd (Bracket.eq_opening_of_ofOpening? hb) hne

end WordChar

end MagicCircle.Description
