/-!
# Positions in a text

Positions count the bytes of a text's UTF-8 form. A tail is the part of a text from a position on.
Scanning starts at any position whatever: one that is past the end, or inside a character, has no
tail and is left as it is.
-/

namespace MagicCircle.Text

/-- The number of bytes of the characters' UTF-8 form. -/
def byteCount : List Char → Nat
  | [] => 0
  | c :: cs => c.utf8Size + byteCount cs

/-- The characters' UTF-8 form. -/
def bytes (cs : List Char) : List UInt8 := cs.flatMap String.utf8EncodeChar

/-- The characters from byte `pos` on, if a character starts or the text ends there. -/
def suffixAt? (cs : List Char) (pos : Nat) : Option (List Char) :=
  if pos = 0 then some cs
  else match cs with
    | [] => none
    | c :: cs => if c.utf8Size ≤ pos then suffixAt? cs (pos - c.utf8Size) else none

def charAt? (cs : List Char) (pos : Nat) : Option Char := (suffixAt? cs pos).bind List.head?

/-- The first position at or after `pos` whose character fails `p`. -/
def skipWhile (p : Char → Bool) (cs : List Char) (pos : Nat) : Nat :=
  match suffixAt? cs pos with
  | some tail => pos + byteCount (tail.takeWhile p)
  | none => pos

/-- The characters between two positions, none if they are not the ends of a part of the text. -/
def slice (cs : List Char) (start finish : Nat) : List Char :=
  match suffixAt? cs start, suffixAt? cs finish with
  | some u, some v => u.take (u.length - v.length)
  | _, _ => []

/-- A tail of a text: the position it starts at and its characters. -/
structure Tail where
  offset : Nat
  chars : List Char
  deriving DecidableEq, Repr

namespace Tail

def ofChars (cs : List Char) : Tail := ⟨0, cs⟩

def length (t : Tail) : Nat := t.chars.length

/-- The tail after its longest run of characters that satisfy `p`. -/
def skip (p : Char → Bool) (t : Tail) : Tail :=
  ⟨t.offset + byteCount (t.chars.takeWhile p), t.chars.dropWhile p⟩

/-- The longest run of characters at the start of the tail that satisfy `p`. -/
def run (p : Char → Bool) (t : Tail) : List Char := t.chars.takeWhile p

theorem length_skip_le (p : Char → Bool) (t : Tail) : (t.skip p).length ≤ t.length :=
  (List.dropWhile_suffix p).length_le

variable {t : Tail} {c : Char} {cs : List Char}

theorem length_of_chars (h : t.chars = c :: cs) : t.length = cs.length + 1 := by
  simp [length, h]

/-- Skipping shortens a tail whose first character is skipped. -/
theorem length_skip_lt {p : Char → Bool} (h : t.chars = c :: cs) (hc : p c = true) :
    (t.skip p).length < t.length := by
  have hle := length_skip_le p ⟨t.offset, cs⟩
  rw [length_of_chars h]
  simp only [length, skip, h, List.dropWhile_cons, hc, if_true] at hle ⊢
  omega

end Tail

end MagicCircle.Text
