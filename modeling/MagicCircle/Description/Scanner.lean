import MagicCircle.Description.StackMachine

/-!
# Reading character by character

The scanner takes the characters of a text one after the other and never looks ahead. All that the
characters so far have decided is in its state; a character that cannot follow them is refused at
once. What only the end of the text can decide is left to `State.finish`.
-/

namespace MagicCircle.Description.Scanner

open StackMachine (OpenGroup)

inductive State
  /-- Nothing but blanks so far. -/
  | start
  /-- Between the components of the innermost group. -/
  | body (g : OpenGroup) (outer : List OpenGroup)
  /-- In the name of a rune of the innermost group. -/
  | word (g : OpenGroup) (outer : List OpenGroup) (name : List Char)
  /-- In the mark after the angle bracket at `opened`, inside the groups around it. -/
  | mark (around : List OpenGroup) (opened : Nat) (chars : List Char)
  /-- After the description. -/
  | done (d : Diagram)
  deriving DecidableEq, Repr

/-- Opens the group whose bracket `b` stands at `o`, inside the groups around it. -/
def openGroup (limit : Nat) (around : List OpenGroup) (b : Bracket) (o : Nat) :
    Except ReadError State :=
  if limit ≤ around.length then .error (.fault (.tooDeep limit o))
  else match b with
    | .round => .ok (.body ⟨.spell, .round, o, []⟩ around)
    | .square => .ok (.body ⟨.unit, .square, o, []⟩ around)
    | .angle => .ok (.mark around o [])

/-- Closes the innermost group, which becomes a component of the group around it. -/
def closeGroup (g : OpenGroup) (outer : List OpenGroup) : Except ReadError State :=
  match g.close with
  | .error e => .error e
  | .ok d =>
    match outer with
    | [] => .ok (.done d)
    | g' :: outer => .ok (.body (g'.push d) outer)

/-- Takes the character `c`, which stands at `o` and is not part of a name. -/
def bodyStep (limit : Nat) (g : OpenGroup) (outer : List OpenGroup) (o : Nat) (c : Char) :
    Except ReadError State :=
  if isSeparator c then .ok (.body g outer)
  else if isClosing c then
    if c = g.bracket.closing then closeGroup g outer
    else .error (.fault (.mismatchedClose g.bracket.closing c o))
  else if c = definitionMark then .error (.fault (.definitionsUnsupported o))
  else match Bracket.ofOpening? c with
    | some b => openGroup limit (g :: outer) b o
    | none =>
      if isWordChar c then .ok (.word g outer [c])
      else .error (.fault (.unexpectedChar c o))

/-- Takes the character `c` after the characters of a mark. Only a colon ends a mark. -/
def markStep (around : List OpenGroup) (opened : Nat) (chars : List Char) (c : Char) :
    Except ReadError State :=
  if isWordChar c then .ok (.mark around opened (chars ++ [c]))
  else if c = ':' ∧ chars ≠ [] then
    match Triangle.ofMark? chars with
    | none => .error (.fault (.unknownMark (String.ofList chars) (opened + 1)))
    | some t => .ok (.body ⟨.triangle t, .angle, opened, []⟩ around)
  else .error (.fault (.missingMark (opened + 1)))

namespace State

/-- Takes the character `c`, which stands at `o`. -/
def step (limit o : Nat) (c : Char) : State → Except ReadError State
  | start =>
    if isSpace c then .ok start
    else if c = Bracket.round.opening then openGroup limit [] .round o
    else .error (.fault (.malformed c o))
  | body g outer => bodyStep limit g outer o c
  | word g outer name =>
    if isWordChar c then .ok (word g outer (name ++ [c]))
    else bodyStep limit (g.push (.rune (String.ofList name))) outer o c
  | mark around opened chars => markStep around opened chars c
  | done d => if isSpace c then .ok (done d) else .error (.fault (.trailingInput o))

/-- What the end of the text makes of the state. -/
def finish : State → Except ReadError Diagram
  | start => .error (.fault .noDescription)
  | body g _ => .error (.fault (.unterminated g.bracket.opening g.start))
  | word g _ _ => .error (.fault (.unterminated g.bracket.opening g.start))
  | mark _ opened _ => .error (.fault (.missingMark (opened + 1)))
  | done d => .ok d

/-- The state after more characters, the first of which stands at `o`. -/
def scan (limit : Nat) : Nat → List Char → State → Except ReadError State
  | _, [], s => .ok s
  | o, c :: cs, s => s.step limit o c >>= scan limit (o + c.utf8Size) cs

end State

/-- The state after the first characters of a text. -/
def after (limit : Nat) (text : List Char) : Except ReadError State :=
  State.start.scan limit 0 text

/-- The diagram that a text describes, read character by character. -/
def read (limit : Nat) (text : List Char) : Except ReadError Diagram :=
  after limit text >>= State.finish

end MagicCircle.Description.Scanner
