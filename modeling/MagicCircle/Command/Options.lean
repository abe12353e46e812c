import MagicCircle.Decimal.Reader

/-!
# Command lines

A command line is read from left to right. An option that takes a value has it after an equals sign
or as the next argument, which then must not look like an option. The value is looked at when the
next argument is, or at the end; so the first thing that stops the reading decides, be it a mistake
or a request for help.
-/

namespace MagicCircle.Command

/-- What a command line sets. A variable may give the description in place of an argument. -/
structure Options where
  description : Option String := none
  side : Option Float := none
  folder : Option String := none
  limit : Option Nat := none

/-- The options that take a value. -/
inductive Setting
  | side
  | folder
  | limit
  deriving DecidableEq, Repr

/-- What a command line asks for. -/
inductive Invocation
  | help
  | version
  /-- The command line makes no sense. -/
  | refused
  | run (options : Options)

def Setting.ofName? : List Char → Option Setting
  | ['s', 'i', 'd', 'e'] => some side
  | ['a', 's', 's', 'e', 't', 's'] => some folder
  | ['m', 'a', 'x', '-', 'd', 'e', 'p', 't', 'h'] => some limit
  | _ => none

/-- The options with one of them set. It must not have been set before, a number must be one, and a
folder must have a name. -/
def Options.set? (o : Options) (s : Setting) (value : List Char) : Option Options :=
  match s with
  | .side =>
    if o.side.isSome then none
    else (Decimal.readFloat? value).map fun x => { o with side := some x }
  | .folder =>
    if o.folder.isSome ∨ value = [] then none
    else some { o with folder := some (String.ofList value) }
  | .limit =>
    if o.limit.isSome then none
    else (Decimal.readNatural? value).map fun n => { o with limit := some n }

structure Reading where
  options : Options := {}
  /-- The option read last, with its value if that has been read, too. -/
  pending : Option (Setting × Option (List Char)) := none

namespace Reading

/-- Sets the option that was read last. It must have got a value. -/
def settle? (r : Reading) : Option Reading :=
  match r.pending with
  | none => some r
  | some (_, none) => none
  | some (s, some value) => (r.options.set? s value).map fun options => ⟨options, none⟩

/-- Takes a description. There is at most one. -/
def describe? (r : Reading) (text : List Char) : Option Reading := do
  let r ← r.settle?
  if r.options.description.isSome then none
  else some { r with options := { r.options with description := some (String.ofList text) } }

/-- Takes an option, with a value if one is attached to it. -/
def option? (r : Reading) (s : Setting) (attached : Option (List Char)) : Option Reading := do
  let r ← r.settle?
  match attached with
  | none => some { r with pending := some (s, none) }
  | some value => (r.options.set? s value).map fun options => ⟨options, none⟩

end Reading

/-- What an argument leads to: the reading goes on, or what is asked for is known. -/
inductive Step
  | next (r : Reading)
  | done (i : Invocation)

/-- Goes on with a reading, if there is one. -/
def Step.ofReading? : Option Reading → Step
  | some r => .next r
  | none => .done .refused

/-- Ends with the given request, if what was read before makes sense. -/
def Step.request (r : Reading) (i : Invocation) : Step :=
  match r.settle? with
  | some _ => .done i
  | none => .done .refused

def splitEquals (cs : List Char) : List Char × Option (List Char) :=
  match cs.dropWhile (· != '=') with
  | [] => (cs, none)
  | _ :: value => (cs.takeWhile (· != '='), some value)

/-- Reads an argument that starts with two dashes, from after them. -/
def longArgument (r : Reading) (cs : List Char) : Step :=
  let (name, attached) := splitEquals cs
  match Setting.ofName? name with
  | some s => .ofReading? (r.option? s attached)
  | none =>
    match attached with
    | some _ => .done .refused
    | none =>
      if name = ['v', 'e', 'r', 'b', 'o', 's', 'e'] then .ofReading? r.settle?
      else if name = ['h', 'e', 'l', 'p'] then .request r .help
      else if name = ['v', 'e', 'r', 's', 'i', 'o', 'n'] then .request r .version
      else .done .refused

/-- Reads an argument that starts with one dash, from after it, letter by letter. -/
def shortArgument (r : Reading) : List Char → Step
  | [] => .next r
  | 'v' :: cs =>
    match r.settle? with
    | some r => shortArgument r cs
    | none => .done .refused
  | 'h' :: _ => .request r .help
  | 'V' :: _ => .request r .version
  | _ :: _ => .done .refused

/-- Reads an argument that does not look like an option: the value that the option before it waits
for, or else the description. -/
def plainArgument (r : Reading) (cs : List Char) : Step :=
  match r.pending with
  | some (s, none) => .next { r with pending := some (s, some cs) }
  | _ => .ofReading? (r.describe? cs)

/-- Reads an argument other than the two dashes that end the options. -/
def argument (r : Reading) (cs : List Char) : Step :=
  match cs with
  | '-' :: '-' :: name => longArgument r name
  | '-' :: c :: letters => shortArgument r (c :: letters)
  | _ => plainArgument r cs

/-- Reads arguments; `ended` says that two dashes have ended the options. -/
def readFrom (ended : Bool) (r : Reading) : List (List Char) → Invocation
  | [] =>
    match r.settle? with
    | some r => .run r.options
    | none => .refused
  | cs :: rest =>
    if ended then
      match r.describe? cs with
      | some r => readFrom true r rest
      | none => .refused
    else if cs = ['-', '-'] then readFrom true r rest
    else match argument r cs with
      | .next r => readFrom false r rest
      | .done i => i

namespace Invocation

/-- What a command line asks for. -/
def ofArguments (args : List String) : Invocation := readFrom false {} (args.map String.toList)

def descriptionVariable : String := "SIGIL_NOTATION"

/-- What a command line and the variables ask for. -/
def ofCommandLine (args : List String) (valueOf? : String → Option String) : Invocation :=
  match ofArguments args with
  | run o => run { o with description := o.description <|> valueOf? descriptionVariable }
  | i => i

end Invocation

end MagicCircle.Command
