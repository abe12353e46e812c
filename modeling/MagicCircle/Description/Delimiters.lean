import MagicCircle.Description.Symbol
import MagicCircle.Text.Tail

/-!
# Delimiters

The brackets of a text, without regard to anything else in it. A closing bracket is matched with the
opening one before it if that one is of its kind and all brackets between the two are matched; a
bracket that is not matched is open.
-/

namespace MagicCircle.Description

/-- A bracket, and the byte that it stands at. -/
structure Delimiter where
  symbol : Char
  offset : Nat
  deriving DecidableEq, Repr

namespace Delimiter

/-- Whether the closing bracket `c` matches the delimiter. -/
def isClosedBy (d : Delimiter) (c : Char) : Bool :=
  (Bracket.ofOpening? d.symbol).any fun b => b.closing == c

/-- The delimiters left open by one more character, which stands at `o`. The last one comes
first. -/
def meet (o : Nat) (c : Char) (before : List Delimiter) : List Delimiter :=
  if isClosing c then
    match before with
    | [] => [⟨c, o⟩]
    | d :: ds => if d.isClosedBy c then ds else ⟨c, o⟩ :: d :: ds
  else if (Bracket.ofOpening? c).isSome then ⟨c, o⟩ :: before
  else before

/-- The delimiters left open by more characters, the first of which stands at `o`. -/
def meetAll : Nat → List Char → List Delimiter → List Delimiter
  | _, [], ds => ds
  | o, c :: cs, ds => meetAll (o + c.utf8Size) cs (meet o c ds)

end Delimiter

/-- The delimiters that are unmatched in a text, the last one first. -/
def unmatched (text : List Char) : List Delimiter := Delimiter.meetAll 0 text []

namespace Delimiter

@[simp] theorem meet_opening (o : Nat) (b : Bracket) (ds : List Delimiter) :
    meet o b.opening ds = ⟨b.opening, o⟩ :: ds := by
  cases b <;> rfl

@[simp] theorem meet_closing (o o' : Nat) (b : Bracket) (ds : List Delimiter) :
    meet o b.closing (⟨b.opening, o'⟩ :: ds) = ds := by
  cases b <;> rfl

theorem meet_of_not_bracket {o : Nat} {c : Char} {ds : List Delimiter} (hcl : isClosing c = false)
    (hop : Bracket.ofOpening? c = none) : meet o c ds = ds := by
  simp [meet, hcl, hop]

theorem meet_isWordChar {o : Nat} {c : Char} {ds : List Delimiter} (hc : isWordChar c = true) :
    meet o c ds = ds :=
  meet_of_not_bracket (isClosing_of_isWordChar hc) (ofOpening?_of_isWordChar hc)

theorem meet_isSeparator {o : Nat} {c : Char} {ds : List Delimiter} (hc : isSeparator c = true) :
    meet o c ds = ds := by
  simp only [isSeparator, isSpace, Bool.or_eq_true, beq_iff_eq] at hc
  rcases hc with ((rfl | rfl) | rfl) | rfl <;> rfl

theorem mem_meet {o : Nat} {c : Char} {d : Delimiter} {ds : List Delimiter}
    (h : d ∈ meet o c ds) : d = ⟨c, o⟩ ∨ d ∈ ds := by
  unfold meet at h
  split at h
  · split at h
    · exact .inl (List.mem_singleton.1 h)
    · split at h
      · exact .inr (List.mem_cons_of_mem _ h)
      · exact List.mem_cons.1 h
  · split at h
    · exact List.mem_cons.1 h
    · exact .inr h

theorem length_meet_le (o : Nat) (c : Char) (ds : List Delimiter) :
    (meet o c ds).length ≤ ds.length + 1 := by
  unfold meet
  split
  · rcases ds with _ | ⟨d, ds⟩
    · exact Nat.le_refl 1
    · dsimp only
      split <;> simp only [List.length_cons] <;> omega
  · split
    · exact Nat.le_refl _
    · exact Nat.le_succ _

end Delimiter

end MagicCircle.Description
