import MagicCircle.Description.Fault
import MagicCircle.Description.Symbol
import MagicCircle.Text.Tail

/-!
# Reading a description

A description is one spell with blanks around it. Reading goes from left to right and never back:
`group` reads one bracketed group and `body` the components inside it. Each returns the tail it
leaves, which is shorter than the tail it was given, so that reading ends.

The `limit` is the largest number of groups that may stand inside each other.
-/

namespace MagicCircle.Description

open Text (Tail)

/-- The shape that a group's bracket gives it, and the tail its components start at. Round and
square brackets name their shapes; inside an angle bracket a mark and a colon come first. -/
def groupShape (b : Bracket) (t : Tail) :
    Except Fault (Shape × {r : Tail // r.length ≤ t.length}) :=
  match b with
  | .round => .ok (.spell, ⟨t, Nat.le_refl _⟩)
  | .square => .ok (.unit, ⟨t, Nat.le_refl _⟩)
  | .angle =>
    let mark := t.run isWordChar
    let rest := t.skip isWordChar
    match h : rest.chars with
    | ':' :: cs =>
      if mark = [] then .error (.missingMark t.offset)
      else match Triangle.ofMark? mark with
        | none => .error (.unknownMark (String.ofList mark) t.offset)
        | some triangle =>
          .ok (.triangle triangle, ⟨⟨rest.offset + 1, cs⟩, by
            have hle := Tail.length_skip_le isWordChar t
            have hlen : rest.length = cs.length + 1 := Tail.length_of_chars h
            change cs.length ≤ t.length
            change rest.length ≤ t.length at hle
            omega⟩)
    | _ => .error (.missingMark t.offset)

mutual

/-- Reads the group whose bracket `b` opens at `start`, the `depth`-th group there counting those
around it. The tail `t` is what follows the bracket. -/
def group (limit depth : Nat) (b : Bracket) (start : Nat) (t : Tail) :
    Except ReadError (Diagram × {r : Tail // r.length < t.length}) :=
  if limit < depth then .error (.fault (.tooDeep limit start))
  else match groupShape b t with
    | .error f => .error (.fault f)
    | .ok (shape, ⟨u, hu⟩) =>
      match body limit depth u with
      | .error e => .error e
      | .ok (components, ⟨r, hr⟩) =>
        match h : r.chars with
        | [] => .error (.fault (.unterminated b.opening start))
        | c :: cs =>
          if c = b.closing then
            match Diagram.group shape components with
            | .error e => .error (.structural e)
            | .ok d => .ok (d, ⟨⟨r.offset + 1, cs⟩, by
                have hlen : r.length = cs.length + 1 := Tail.length_of_chars h
                change cs.length < t.length
                omega⟩)
          else .error (.fault (.mismatchedClose b.closing c r.offset))
termination_by (t.length, 1)
decreasing_by
  simp only [Prod.lex_def]
  omega

/-- Reads components, inside the `depth`-th group, up to a closing bracket or the end. -/
def body (limit depth : Nat) (t : Tail) :
    Except ReadError (List Diagram × {r : Tail // r.length ≤ t.length}) :=
  let u := t.skip isSeparator
  have hu : u.length ≤ t.length := Tail.length_skip_le isSeparator t
  match h : u.chars with
  | [] => .ok ([], ⟨u, hu⟩)
  | c :: cs =>
    have hlen : u.length = cs.length + 1 := Tail.length_of_chars h
    if isClosing c then .ok ([], ⟨u, hu⟩)
    else if c = definitionMark then .error (.fault (.definitionsUnsupported u.offset))
    else match Bracket.ofOpening? c with
      | some b =>
        match group limit (depth + 1) b u.offset ⟨u.offset + 1, cs⟩ with
        | .error e => .error e
        | .ok (d, ⟨v, hv⟩) =>
          have hv : v.length < cs.length := hv
          match body limit depth v with
          | .error e => .error e
          | .ok (ds, ⟨r, hr⟩) => .ok (d :: ds, ⟨r, by omega⟩)
      | none =>
        if hc : isWordChar c then
          let v := u.skip isWordChar
          have hv : v.length < u.length := Tail.length_skip_lt h hc
          match body limit depth v with
          | .error e => .error e
          | .ok (ds, ⟨r, hr⟩) =>
            .ok (.rune (String.ofList (u.run isWordChar)) :: ds, ⟨r, by omega⟩)
        else .error (.fault (.unexpectedChar c u.offset))
termination_by (t.length, 0)
decreasing_by
  all_goals simp only [Prod.lex_def]
  · left; change cs.length < t.length; omega
  · left; omega
  · left; exact Nat.lt_of_lt_of_le hv hu

end

/-- The diagram that a text describes, with at most `limit` groups inside each other. -/
def read (limit : Nat) (text : List Char) : Except ReadError Diagram :=
  let t := (Tail.ofChars text).skip isSpace
  match t.chars with
  | [] => .error (.fault .noDescription)
  | c :: cs =>
    if c = Bracket.round.opening then
      match group limit 1 .round t.offset ⟨t.offset + 1, cs⟩ with
      | .error e => .error e
      | .ok (d, rest) =>
        let rest := rest.val.skip isSpace
        match rest.chars with
        | [] => .ok d
        | _ :: _ => .error (.fault (.trailingInput rest.offset))
    else .error (.fault (.malformed c t.offset))

/-- How many groups may stand inside each other unless a limit is given. -/
def defaultLimit : Nat := 64

end MagicCircle.Description
