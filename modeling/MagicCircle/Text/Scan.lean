import MagicCircle.Text.Tail

/-!
# Scanning character by character

`scan` goes over a text one character after another. `ScanEnd` says where it may stop: at a place
where a character starts or the text ends, and no earlier than at the first character that fails.
-/

namespace MagicCircle.Text

/-- A character starts at byte `pos` of the text, or the text ends there. -/
def IsBoundary (text : List Char) (pos : Nat) : Prop := ∃ u v, text = u ++ v ∧ byteCount u = pos

/-- Goes from byte `pos` on over characters that satisfy `p`, looking at no more than `clock`
characters. There is no result if that is not the end. -/
def scan (p : Char → Bool) (text : List Char) : Nat → Nat → Option Nat
  | 0, _ => none
  | clock + 1, pos =>
    match charAt? text pos with
    | some c => if p c then scan p text clock (pos + c.utf8Size) else some pos
    | none => some pos

/-- The place `q` ends the characters from `pos` on that satisfy `p`. -/
structure ScanEnd (p : Char → Bool) (text : List Char) (pos q : Nat) : Prop where
  le : pos ≤ q
  isBoundary : IsBoundary text q
  holds : ∀ o c, pos ≤ o → o < q → charAt? text o = some c → p c = true
  stops : q = byteCount text ∨ ∃ c, charAt? text q = some c ∧ p c = false

/-- The characters `w` stand at byte `pos` of the text and all satisfy `p`. -/
structure IsRun (p : Char → Bool) (text : List Char) (pos : Nat) (w : List Char) : Prop where
  stands : ∃ u v, text = u ++ (w ++ v) ∧ byteCount u = pos
  holds : ∀ c ∈ w, p c = true

end MagicCircle.Text
