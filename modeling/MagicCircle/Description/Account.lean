import MagicCircle.Description.Reader
import MagicCircle.Text.Scan

/-!
# Reading with an account

The reader over the bytes of a text. Positions, lengths and depths are machine words, so that a sum
that is too large wraps around; a position is an argument, and what comes back is how many bytes have
been read from there. Nothing makes a loop or a call end but what it does: a clock that each of them
runs down stops one that would go on for ever, and then there is no result.

All that is computed on the way goes into an account, the last entry first. `Entry.Sound` says of an
entry that nothing has gone wrong there.
-/

namespace MagicCircle.Description.Account

open Text (IsBoundary byteCount charAt?)

inductive Entry
  /-- The position `step` bytes after `pos` was computed. -/
  | moved (pos step : Nat)
  /-- The number of bytes from `start` to `finish` was computed. -/
  | measured (start finish : Nat)
  /-- The depth after `depth` was computed. -/
  | deepened (depth : Nat)
  /-- The reading of a group began, and with it `level` groups were being read. -/
  | entered (start depth level : Nat)
  /-- The group whose reading began last was read to its end. -/
  | left
  /-- The loop over components came from `pos` to `next` and goes on. -/
  | passed (pos next : Nat)
  /-- The characters from `start` to `finish` were taken out of the text. -/
  | taken (start finish : Nat)
  /-- A group was to be read where no bracket opens. -/
  | stray (start : Nat)
  deriving DecidableEq, Repr

/-- How many groups are being read after the entries of an account. -/
def level : List Entry → Nat
  | [] => 0
  | .entered .. :: es => level es + 1
  | .left :: es => level es - 1
  | _ :: es => level es

/-- How many values a machine word has. -/
def wordSize : Nat := UInt64.size

namespace Entry

/-- Positions are boundaries of the text, lengths and slices go forward, depths count the groups that
are being read and are neither more than the limit allows nor more than the text has bytes. -/
def Sound (limit : Nat) (text : List Char) : Entry → Prop
  | moved pos step => pos + step ≤ byteCount text ∧ IsBoundary text (pos + step)
  | measured start finish => start ≤ finish ∧ finish ≤ byteCount text
  | deepened depth => depth + 1 ≤ byteCount text
  | entered _ depth level => depth = level ∧ level ≤ limit + 1 ∧ depth ≤ byteCount text
  | left => True
  | passed pos next => pos < next
  | taken start finish => start < finish ∧ IsBoundary text start ∧ IsBoundary text finish
  | stray _ => False

/-- The sum is a machine word. -/
def Fits : Entry → Prop
  | moved pos step => pos + step < wordSize
  | deepened depth => depth + 1 < wordSize
  | _ => True

end Entry

/-- Steps of reading: they add to the account, and may find a fault or come to no end. -/
abbrev Steps (α : Type) := ExceptT ReadError (StateT (List Entry) Option) α

def note (e : Entry) : Steps Unit := modify (e :: ·)

def enter (start depth : Nat) : Steps Unit :=
  modify fun es => .entered start depth (level es + 1) :: es

def move (pos step : Nat) : Steps Nat := do
  note (.moved pos step)
  return (pos + step) % wordSize

def measure (start finish : Nat) : Steps Nat := do
  note (.measured start finish)
  return (finish + wordSize - start) % wordSize

def deepen (depth : Nat) : Steps Nat := do
  note (.deepened depth)
  return (depth + 1) % wordSize

def take (text : List Char) (start finish : Nat) : Steps (List Char) := do
  note (.taken start finish)
  return Text.slice text start finish

/-- The clock has run down. -/
def timeUp {α : Type} : Steps α := ExceptT.mk failure

/-- The first position from `pos` on whose character fails `p`. -/
def scan (p : Char → Bool) (text : List Char) : Nat → Nat → Steps Nat
  | 0, _ => timeUp
  | clock + 1, pos =>
    match charAt? text pos with
    | some c => if p c then do scan p text clock (← move pos c.utf8Size) else pure pos
    | none => pure pos

/-- The word at `start`, and where it ends. -/
def word (text : List Char) (clock start : Nat) : Steps (List Char × Nat) := do
  let finish ← scan isWordChar text clock start
  return (← take text start finish, finish)

/-- Reads the mark of a triangle with the colon after it. -/
def mark (text : List Char) (clock pos : Nat) : Steps (Shape × Nat) := do
  let finish ← scan isWordChar text clock pos
  if finish = pos ∨ charAt? text finish ≠ some ':' then throw (.fault (.missingMark pos))
  else
    let name ← take text pos finish
    match Triangle.ofMark? name with
    | none => throw (.fault (.unknownMark (String.ofList name) pos))
    | some t => return (.triangle t, ← measure pos (← move finish 1))

/-- The shape that a bracket stands for, and where its components start. -/
def head (text : List Char) (b : Bracket) (clock pos : Nat) : Steps (Shape × Nat) :=
  match b with
  | .round => return (.spell, pos)
  | .square => return (.unit, pos)
  | .angle => do
    let (shape, length) ← mark text clock pos
    return (shape, ← move pos length)

/-- Ends the group that began at `start`, at the position after its components. -/
def close (text : List Char) (b : Bracket) (start : Nat) (shape : Shape)
    (components : List Diagram) (finish : Nat) : Steps (Diagram × Nat) :=
  match charAt? text finish with
  | none => throw (.fault (.unterminated b.opening start))
  | some c =>
    if c = b.closing then
      match Diagram.group shape components with
      | .error e => throw (.structural e)
      | .ok d => do
        let length ← measure start (← move finish b.closing.utf8Size)
        note .left
        return (d, length)
    else throw (.fault (.mismatchedClose b.closing c finish))

mutual

/-- Reads the group at `start`. -/
def group (limit : Nat) (text : List Char) : Nat → Nat → Nat → Steps (Diagram × Nat)
  | 0, _, _ => timeUp
  | clock + 1, start, depth => do
    enter start depth
    match charAt? text start with
    | none => do
      note (.stray start)
      throw (.fault (.unterminated Bracket.round.opening start))
    | some c =>
      if c = definitionMark then throw (.fault (.definitionsUnsupported start))
      else if limit < depth then throw (.fault (.tooDeep limit start))
      else do
        let pos ← move start c.utf8Size
        match Bracket.ofOpening? c with
        | none => do
          note (.stray start)
          throw (.fault (.unexpectedChar c start))
        | some b => do
          let (shape, pos) ← head text b clock pos
          let (ds, length) ← components limit text depth pos clock [] pos
          close text b start shape ds (← move pos length)
termination_by structural clock => clock

/-- Reads components, from `pos` on; those from `start` to there have been `read`. -/
def components (limit : Nat) (text : List Char) (depth start : Nat) :
    Nat → List Diagram → Nat → Steps (List Diagram × Nat)
  | 0, _, _ => timeUp
  | clock + 1, read, pos => do
    let next ← scan isSeparator text clock pos
    match charAt? text next with
    | none => return (read, ← measure start next)
    | some c =>
      if isClosing c then return (read, ← measure start next)
      else if c = definitionMark ∨ (Bracket.ofOpening? c).isSome then do
        let (d, length) ← group limit text clock next (← deepen depth)
        let finish ← move next length
        note (.passed pos finish)
        components limit text depth start clock (read ++ [d]) finish
      else if isWordChar c then do
        let (name, finish) ← word text clock next
        note (.passed pos finish)
        components limit text depth start clock (read ++ [.rune (String.ofList name)]) finish
      else throw (.fault (.unexpectedChar c next))
termination_by structural clock => clock

end

/-- Reads a description. -/
def read (limit : Nat) (text : List Char) (clock : Nat) : Steps Diagram := do
  let start ← scan isSpace text clock 0
  match charAt? text start with
  | none => throw (.fault .noDescription)
  | some c =>
    if c = Bracket.round.opening then do
      let (d, length) ← group limit text clock start 1
      let finish ← scan isSpace text clock (← move start length)
      if finish < byteCount text then throw (.fault (.trailingInput finish)) else return d
    else throw (.fault (.malformed c start))

end MagicCircle.Description.Account
