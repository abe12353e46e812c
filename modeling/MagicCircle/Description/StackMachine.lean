import MagicCircle.Description.Reader

/-!
# A stack machine for the notation

One pass over the text, with the groups that are open at the place reached on a stack. Each step
decides at one symbol, by the symbol and the stack alone.
-/

namespace MagicCircle.Description.StackMachine

open Text (Tail)

/-- A group whose closing bracket has not been reached. -/
structure OpenGroup where
  shape : Shape
  bracket : Bracket
  start : Nat
  /-- The components read so far, in order. -/
  components : List Diagram
  deriving DecidableEq, Repr

namespace OpenGroup

def push (g : OpenGroup) (d : Diagram) : OpenGroup :=
  { g with components := g.components ++ [d] }

/-- The diagram of a group that is complete. -/
def close (g : OpenGroup) : Except ReadError Diagram :=
  match Diagram.group g.shape g.components with
  | .error e => .error (.structural e)
  | .ok d => .ok d

end OpenGroup

/-- The open groups, of which there is at least one, and the text that is left. -/
structure State where
  innermost : OpenGroup
  /-- The groups around the innermost one, from the inside out. -/
  outer : List OpenGroup
  rest : Tail
  deriving DecidableEq, Repr

inductive Progress
  | going (s : State)
  | complete (d : Diagram) (rest : Tail)
  deriving DecidableEq, Repr

/-- Opens the group whose bracket `b` stands at `start`, inside `around`; the tail `t` is what
follows the bracket. -/
def openGroup (limit : Nat) (around : List OpenGroup) (b : Bracket) (start : Nat) (t : Tail) :
    Except ReadError State :=
  if limit ≤ around.length then .error (.fault (.tooDeep limit start))
  else match groupShape b t with
    | .error f => .error (.fault f)
    | .ok (shape, r) => .ok ⟨⟨shape, b, start, []⟩, around, r⟩

/-- Closes the innermost group, which becomes a component of the group around it. The tail `t` is
what follows the closing bracket. -/
def closeGroup (g : OpenGroup) (outer : List OpenGroup) (t : Tail) : Except ReadError Progress :=
  match g.close with
  | .error e => .error e
  | .ok d =>
    match outer with
    | [] => .ok (.complete d t)
    | g' :: outer => .ok (.going ⟨g'.push d, outer, t⟩)

/-- The step at the first symbol after separators. -/
def step (limit : Nat) (s : State) : Except ReadError Progress :=
  let u := s.rest.skip isSeparator
  match u.chars with
  | [] => .error (.fault (.unterminated s.innermost.bracket.opening s.innermost.start))
  | c :: cs =>
    if isClosing c then
      if c = s.innermost.bracket.closing then closeGroup s.innermost s.outer ⟨u.offset + 1, cs⟩
      else .error (.fault (.mismatchedClose s.innermost.bracket.closing c u.offset))
    else if c = definitionMark then .error (.fault (.definitionsUnsupported u.offset))
    else match Bracket.ofOpening? c with
      | some b =>
        match openGroup limit (s.innermost :: s.outer) b u.offset ⟨u.offset + 1, cs⟩ with
        | .error e => .error e
        | .ok s' => .ok (.going s')
      | none =>
        if isWordChar c then
          let name := String.ofList (u.run isWordChar)
          .ok (.going ⟨s.innermost.push (.rune name), s.outer, u.skip isWordChar⟩)
        else .error (.fault (.unexpectedChar c u.offset))

theorem length_le_of_openGroup {limit : Nat} {around : List OpenGroup} {b : Bracket} {start : Nat}
    {t : Tail} {s : State} (h : openGroup limit around b start t = .ok s) :
    s.rest.length ≤ t.length := by
  unfold openGroup at h
  split at h
  · cases h
  · split at h
    · cases h
    · rename_i r _
      cases h
      exact r.2

theorem rest_of_closeGroup {g : OpenGroup} {outer : List OpenGroup} {t : Tail} {s : State}
    (h : closeGroup g outer t = .ok (.going s)) : s.rest = t := by
  unfold closeGroup at h
  split at h
  · cases h
  · split at h <;> cases h
    rfl

/-- A step after which the machine goes on shortens the text that is left. -/
theorem length_lt_of_step {limit : Nat} {s s' : State} (h : step limit s = .ok (.going s')) :
    s'.rest.length < s.rest.length := by
  have hu := Tail.length_skip_le isSeparator s.rest
  simp only [step] at h
  split at h
  · cases h
  · rename_i c cs hcs
    have hlen := Tail.length_of_chars hcs
    have hcut : ∀ o, (⟨o, cs⟩ : Tail).length = cs.length := fun _ => rfl
    split at h
    · split at h
      · rw [rest_of_closeGroup h, hcut]
        omega
      · cases h
    split at h
    · cases h
    split at h
    · split at h
      · cases h
      · rename_i hopen
        have hle := length_le_of_openGroup hopen
        rw [hcut] at hle
        cases h
        omega
    · split at h
      · rename_i hc
        have hlt := Tail.length_skip_lt hcs hc
        cases h
        exact Nat.lt_of_lt_of_le hlt hu
      · cases h

/-- Runs until the outermost group is complete. The result is its diagram and the tail after it. -/
def run (limit : Nat) (s : State) : Except ReadError (Diagram × Tail) :=
  match _ : step limit s with
  | .error e => .error e
  | .ok (.complete d t) => .ok (d, t)
  | .ok (.going s') => run limit s'
termination_by s.rest.length
decreasing_by exact length_lt_of_step ‹_›

/-- The diagram that a text describes, read by the machine. The round bracket that the text must
start with is opened on an empty stack. -/
def read (limit : Nat) (text : List Char) : Except ReadError Diagram :=
  let t := (Tail.ofChars text).skip isSpace
  match t.chars with
  | [] => .error (.fault .noDescription)
  | c :: cs =>
    if c = Bracket.round.opening then
      match openGroup limit [] .round t.offset ⟨t.offset + 1, cs⟩ with
      | .error e => .error e
      | .ok s =>
        match run limit s with
        | .error e => .error e
        | .ok (d, rest) =>
          let rest := rest.skip isSpace
          match rest.chars with
          | [] => .ok d
          | _ :: _ => .error (.fault (.trailingInput rest.offset))
    else .error (.fault (.malformed c t.offset))

end MagicCircle.Description.StackMachine
