import MagicCircle.Drawing.Failure
import MagicCircle.Command.Run

/-!
# The stages of a run

A run passes through stages, in a fixed order, and each of them may fail. What makes a stage fail is
said here of each stage by itself: from what the run is given, and not from what the stages before
it have made of that. Where a stage before has failed it says nothing.
-/

namespace MagicCircle.Command

open Files (FileFault)

inductive Stage
  /-- The variable for the side is looked at, even if an option sets the side. -/
  | sideVariable
  /-- The variable for the limit is looked at, even if an option sets the limit. -/
  | limitVariable
  | sideOption
  | limitOption
  /-- Standard input is read, unless a description is given otherwise. -/
  | input
  | reading
  | drawing
  deriving DecidableEq, Repr

def settingStages : List Stage := [.sideVariable, .limitVariable, .sideOption, .limitOption]

def stages : List Stage := settingStages ++ [.input, .reading, .drawing]

/-- What a run is given. -/
structure Request where
  tools : Tools
  options : Options
  around : Surroundings
  files : String → Except FileFault ByteArray

/-- A side that can be drawn. -/
def isSide (side : Float) : Bool := side.isFinite && decide (0 < side)

namespace Request

variable (r : Request)

/-- The number that a variable stands for, without the blanks around it. -/
def given? {α : Type} (read : List Char → Option α) (key : String) : Option α :=
  (r.around.valueOf? key).bind fun raw => read (Text.trim raw.toList)

/-- How a variable for a number fails, if it is set: it is no number, or none that will do. -/
def variableFailure? {α : Type} (read : List Char → Option α) (good : α → Bool) (key : String) :
    Option SettingsError :=
  match r.around.valueOf? key with
  | none => none
  | some raw =>
    match r.given? read key with
    | none => some (.unreadable key raw)
    | some a => if good a then none else some (.notPositive key raw)

/-! What is in effect: an option, or else the variable, or else what holds by default. -/

def side : Float :=
  r.options.side.getD
    ((r.given? Decimal.readFloat? Settings.sideVariable).getD Settings.standard.side)

def limit : Nat :=
  r.options.limit.getD
    ((r.given? Decimal.readNatural? Settings.limitVariable).getD Settings.standard.limit)

def folder : String :=
  r.options.folder.getD
    (((r.around.valueOf? Settings.folderVariable).filter fun raw => Text.trim raw.toList ≠ []).getD
      Settings.standard.folder)

/-- The description: the one that is given with the options, or else standard input if it is text. -/
def text? : Option String :=
  r.options.description <|> r.around.input.toOption.bind String.fromUTF8?

/-- What reading the description comes to, if there is one. -/
def reading? : Option (Except Description.ReadError Diagram) :=
  r.text?.map fun text => Description.read r.limit text.toList

def diagram? : Option Diagram := r.reading?.bind Except.toOption

/-- The glyph of a name. -/
def answer (name : String) : Except GlyphError Glyph :=
  Folder.answer r.tools.decoder r.files r.folder name

/-- How a stage fails, if it does. -/
def failure? : Stage → Option RunError
  | .sideVariable =>
    (r.variableFailure? Decimal.readFloat? isSide Settings.sideVariable).map .settings
  | .limitVariable =>
    (r.variableFailure? Decimal.readNatural? (0 < ·) Settings.limitVariable).map .settings
  | .sideOption =>
    match r.options.side with
    | none => none
    | some side =>
      if isSide side then none
      else some (.settings (.notPositive "--side" (Decimal.messageText side)))
  | .limitOption =>
    if r.options.limit = some 0 then some (.settings (.notPositive "--max-depth" "0")) else none
  | .input =>
    match r.options.description, r.around.input with
    | some _, _ => none
    | none, .error cause => some (.input cause)
    | none, .ok bytes =>
      if (String.fromUTF8? bytes).isSome then none else some (.input .notUtf8)
  | .reading =>
    match r.reading? with
    | some (.error e) => some (.reading e)
    | _ => none
  | .drawing =>
    match r.diagram? with
    | some d => (d.leaves.findSome? (lookupFailure? r.answer)).map .drawing
    | none => none

/-- What drawing a diagram with the settings in effect comes to, where the glyph of each rune is read
anew. -/
def drawn (d : Diagram) : Except (DrawError Float) Unit × Canvas Float × Unit :=
  d.renderOn (Source.ofFunction r.answer) r.side (Canvas.blank none) ()

/-- The operations of the drawing as they are written, in order. -/
def lines (d : Diagram) : List String := (r.drawn d).2.1.ops.toList.map r.tools.line

/-- The run succeeds: it prints the whole drawing of the diagram, one line an operation, and reports
nothing. -/
structure Prints (outcome : Outcome) (d : Diagram) : Prop where
  settings_eq : settings r.options r.around.valueOf? = .ok ⟨r.side, r.limit, r.folder⟩
  diagram?_eq : r.diagram? = some d
  drawn_eq : (r.drawn d).1 = .ok ()
  outcome_eq : outcome = .printed (r.lines d)
  exitCode_eq : outcome.exitCode = 0
  output_eq : outcome.output = r.lines d
  splitOn_output : (Text.ofLines outcome.output).toList.splitOn '\n' =
    (r.lines d).map String.toList ++ [[]]
  errors_eq : outcome.errors = []

/-- The run fails at a stage, which is the first to fail: it reports that, and prints nothing. -/
structure FailsAt (outcome : Outcome) (stage : Stage) (e : RunError) : Prop where
  passed : ∃ before after, stages = before ++ stage :: after ∧
    ∀ earlier ∈ before, r.failure? earlier = none
  fails : r.failure? stage = some e
  outcome_eq : outcome = .failed e
  exitCode_eq : outcome.exitCode = 1
  output_eq : outcome.output = []
  errors_eq : outcome.errors = [report e]

end Request

end MagicCircle.Command
