import MagicCircle.Json.Value

/-!
# Reading JSON

A strict reader: blanks are space, tab, line feed and carriage return, there are no comments and no
commas without a value after them, and nothing but blanks may follow the value.
-/

namespace MagicCircle.Json

open Decimal (Numeral digitValue ofDigits spanDigits)

/-- The rest of a text after at least one of its characters. -/
abbrev Rest (cs : List Char) := {r : List Char // r.length < cs.length}

def isBlank (c : Char) : Bool := c == ' ' || c == '\t' || c == '\n' || c == '\x0d'

/-- The text after the blanks it starts with. -/
def skipBlank (cs : List Char) : List Char := cs.dropWhile isBlank

theorem length_skipBlank_le (cs : List Char) : (skipBlank cs).length ≤ cs.length :=
  (List.dropWhile_suffix isBlank).length_le

/-- What follows the first character after blanks is shorter than the text. -/
theorem length_lt_of_skipBlank {cs r : List Char} {c : Char} (h : skipBlank cs = c :: r) :
    r.length < cs.length := by
  have hle := length_skipBlank_le cs
  rw [h] at hle
  exact hle

/-! ## Strings -/

def hexValue? (c : Char) : Option Nat :=
  if c.isDigit then some (digitValue c)
  else if 'a' ≤ c ∧ c ≤ 'f' then some (c.toNat - 'a'.toNat + 10)
  else if 'A' ≤ c ∧ c ≤ 'F' then some (c.toNat - 'A'.toNat + 10)
  else none

def hexNumber? (a b c d : Char) : Option Nat := do
  let a ← hexValue? a
  let b ← hexValue? b
  let c ← hexValue? c
  let d ← hexValue? d
  return ((a * 16 + b) * 16 + c) * 16 + d

def simpleEscape? : Char → Option Char
  | '"' => some '"'
  | '\\' => some '\\'
  | '/' => some '/'
  | 'b' => some '\x08'
  | 'f' => some '\x0c'
  | 'n' => some '\n'
  | 'r' => some '\x0d'
  | 't' => some '\t'
  | _ => none

def isHighHalf (n : Nat) : Bool := 0xd800 ≤ n && n < 0xdc00

def isLowHalf (n : Nat) : Bool := 0xdc00 ≤ n && n < 0xe000

def pairChar (high low : Nat) : Char :=
  Char.ofNat (0x10000 + (high - 0xd800) * 0x400 + (low - 0xdc00))

/-- The character of a second half that follows a first one, and the text after it. -/
def secondHalf? (high : Nat) : List Char → Option (Char × List Char)
  | '\\' :: 'u' :: a :: b :: c :: d :: r =>
    match hexNumber? a b c d with
    | some low => if isLowHalf low then some (pairChar high low, r) else none
    | none => none
  | _ => none

theorem length_secondHalf {high : Nat} {cs r : List Char} {c : Char}
    (h : secondHalf? high cs = some (c, r)) : r.length < cs.length := by
  unfold secondHalf? at h
  split at h
  · split at h
    · split at h
      · simp only [Option.some.injEq, Prod.mk.injEq] at h
        simp only [← h.2, List.length_cons]
        omega
      · simp at h
    · simp at h
  · simp at h

/-- Reads the rest of a string, whose opening quote has been read. The text is `none` when a half of
a surrogate pair stands alone. -/
def stringRest (cs : List Char) : Option (Option (List Char) × Rest cs) :=
  match cs with
  | [] => none
  | '"' :: r => some (some [], ⟨r, by simp⟩)
  | '\\' :: 'u' :: a :: b :: c :: d :: r =>
    match hexNumber? a b c d with
    | none => none
    | some n =>
      if isHighHalf n then
        match h : secondHalf? n r with
        | some (ch, r') =>
          have hr : r'.length < r.length := length_secondHalf h
          match stringRest r' with
          | some (text, ⟨rest, hrest⟩) =>
            some (text.map (ch :: ·), ⟨rest, by simp only [List.length_cons]; omega⟩)
          | none => none
        | none =>
          match stringRest r with
          | some (_, ⟨rest, hrest⟩) => some (none, ⟨rest, by simp only [List.length_cons]; omega⟩)
          | none => none
      else
        match stringRest r with
        | some (text, ⟨rest, hrest⟩) =>
          some (if isLowHalf n then none else text.map (Char.ofNat n :: ·),
            ⟨rest, by simp only [List.length_cons]; omega⟩)
        | none => none
  | '\\' :: c :: r =>
    match simpleEscape? c with
    | none => none
    | some ch =>
      match stringRest r with
      | some (text, ⟨rest, hrest⟩) =>
        some (text.map (ch :: ·), ⟨rest, by simp only [List.length_cons]; omega⟩)
      | none => none
  | c :: r =>
    if c = '\\' ∨ c < ' ' then none
    else
      match stringRest r with
      | some (text, ⟨rest, hrest⟩) =>
        some (text.map (c :: ·), ⟨rest, by simp only [List.length_cons]; omega⟩)
      | none => none
termination_by cs.length

/-! ## Numbers -/

/-- Reads the digits after a point. Where there is a point there must be a digit after it. -/
def fraction? : List Char → Option (List Nat × List Char)
  | '.' :: cs =>
    let (ds, r) := spanDigits cs
    if ds = [] then none else some (ds, r)
  | cs => some ([], cs)

/-- Reads a power of ten: `e` of either case, perhaps a sign, and at least one digit. -/
def exponent? : List Char → Option (Option Int × List Char)
  | c :: cs =>
    if c = 'e' ∨ c = 'E' then
      let (negative, cs) := match cs with
        | '+' :: r => (false, r)
        | '-' :: r => (true, r)
        | r => (false, r)
      let (ds, r) := spanDigits cs
      let e : Int := ofDigits ds
      if ds = [] then none else some (some (if negative then -e else e), r)
    else some (none, c :: cs)
  | [] => some (none, [])

/-- Reads a number. It has no plus sign and no zero before other digits. -/
def number? (cs : List Char) : Option (Numeral × List Char) := do
  let (negative, cs) := match cs with
    | '-' :: r => (true, r)
    | r => (false, r)
  let (whole, r) := spanDigits cs
  if whole = [] ∨ (whole.head? = some 0 ∧ whole ≠ [0]) then none
  let (fraction, r) ← fraction? r
  let (exponent, r) ← exponent? r
  return (⟨negative, whole, fraction, exponent⟩, r)

/-! ## Values -/

/-- The text after a given beginning. -/
def after? : List Char → List Char → Option (List Char)
  | [], cs => some cs
  | p :: ps, c :: cs => if p = c then after? ps cs else none
  | _ :: _, [] => none

/-- Keeps a reading that has used up a part of the text. -/
def progress? {β : Type} (cs : List Char) : Option (β × List Char) → Option (β × Rest cs)
  | some (b, r) => if h : r.length < cs.length then some (b, ⟨r, h⟩) else none
  | none => none

def scalar? (cs : List Char) : Option (Value × Rest cs) :=
  match cs with
  | '"' :: r =>
    match stringRest r with
    | some (text, ⟨rest, h⟩) =>
      some (.string (text.map String.ofList), ⟨rest, by simp only [List.length_cons]; omega⟩)
    | none => none
  | 'n' :: r => progress? _ ((after? ['u', 'l', 'l'] r).map (Value.null, ·))
  | 't' :: r => progress? _ ((after? ['r', 'u', 'e'] r).map (Value.bool true, ·))
  | 'f' :: r => progress? _ ((after? ['a', 'l', 's', 'e'] r).map (Value.bool false, ·))
  | cs => progress? cs ((number? cs).map fun p => (Value.number p.1, p.2))

mutual

/-- Reads a value, with blanks before it. -/
def value (cs : List Char) : Option (Value × Rest cs) :=
  match h : skipBlank cs with
  | '[' :: r =>
    have hr := length_lt_of_skipBlank h
    match h' : skipBlank r with
    | ']' :: rest =>
      have := length_lt_of_skipBlank h'
      some (.array [], ⟨rest, by omega⟩)
    | _ =>
      match items r with
      | some (vs, ⟨rest, _⟩) => some (.array vs, ⟨rest, by omega⟩)
      | none => none
  | '\x7b' :: r =>
    have hr := length_lt_of_skipBlank h
    match h' : skipBlank r with
    | '\x7d' :: rest =>
      have := length_lt_of_skipBlank h'
      some (.object [], ⟨rest, by omega⟩)
    | _ =>
      match members r with
      | some (ms, ⟨rest, _⟩) => some (.object ms, ⟨rest, by omega⟩)
      | none => none
  | s =>
    have hs := length_skipBlank_le cs
    match scalar? s with
    | some (v, ⟨rest, hrest⟩) => some (v, ⟨rest, by rw [h] at hs; omega⟩)
    | none => none
termination_by (cs.length, 0)

/-- Reads the values of an array up to its closing bracket. There is at least one. -/
def items (cs : List Char) : Option (List Value × Rest cs) :=
  match value cs with
  | none => none
  | some (v, ⟨r, hr⟩) =>
    match h : skipBlank r with
    | ']' :: rest =>
      have := length_lt_of_skipBlank h
      some ([v], ⟨rest, by omega⟩)
    | ',' :: more =>
      have := length_lt_of_skipBlank h
      match items more with
      | some (vs, ⟨rest, _⟩) => some (v :: vs, ⟨rest, by omega⟩)
      | none => none
    | _ => none
termination_by (cs.length, 1)

/-- Reads the members of an object up to its closing brace. There is at least one. -/
def members (cs : List Char) : Option (List (Option String × Value) × Rest cs) :=
  match h : skipBlank cs with
  | '"' :: r =>
    have := length_lt_of_skipBlank h
    match stringRest r with
    | none => none
    | some (key, ⟨afterKey, hk⟩) =>
      match h' : skipBlank afterKey with
      | ':' :: r' =>
        have := length_lt_of_skipBlank h'
        match value r' with
        | none => none
        | some (v, ⟨u, hu⟩) =>
          match h'' : skipBlank u with
          | '\x7d' :: rest =>
            have := length_lt_of_skipBlank h''
            some ([(key.map String.ofList, v)], ⟨rest, by omega⟩)
          | ',' :: more =>
            have := length_lt_of_skipBlank h''
            match members more with
            | some (ms, ⟨rest, _⟩) =>
              some ((key.map String.ofList, v) :: ms, ⟨rest, by omega⟩)
            | none => none
          | _ => none
      | _ => none
  | _ => none
termination_by (cs.length, 1)

end

def read? (cs : List Char) : Option Value :=
  match value cs with
  | some (v, ⟨rest, _⟩) => if skipBlank rest = [] then some v else none
  | none => none

end MagicCircle.Json
