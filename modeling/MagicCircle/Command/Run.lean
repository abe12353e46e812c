import MagicCircle.Canvas.Log
import MagicCircle.Command.Options
import MagicCircle.Drawing.Basic
import MagicCircle.Glyph.Folder
import MagicCircle.Settings
import MagicCircle.Text.Line

/-!
# The command

A run reads its settings, then a description, then the glyphs of its runes, and prints the log of
drawing it. It prints the whole log or, if any stage fails, nothing but the report of the first that
does. How command lines are read, how texts spell glyphs and how operations are written is not laid
down here: these are the tools of a run.
-/

namespace MagicCircle.Command

open Files (FileFault)

inductive RunError
  | settings (e : SettingsError)
  /-- Standard input cannot be read, or is not text. -/
  | input (cause : FileFault)
  | reading (e : Description.ReadError)
  | drawing (e : DrawError Float)

instance : Reportable RunError where
  code
    | .settings e => Reportable.code e
    | .input _ => "E_STDIN"
    | .reading e => Reportable.code e
    | .drawing e => Reportable.code e
  message
    | .settings e => Reportable.message e
    | .input cause => "failed to read notation from stdin: " ++ cause.text
    | .reading e => Reportable.message e
    | .drawing e => Reportable.message e
  retryable
    | .drawing e => Reportable.retryable e
    | _ => false

/-- The parts of a run that are laid down elsewhere. -/
structure Tools where
  /-- What a command line and the variables ask for. -/
  invocation : List String → (String → Option String) → Invocation
  decoder : Glyph.Decoder
  /-- An operation as it is written. -/
  line : Op Float → String

def Tools.standard : Tools := ⟨Invocation.ofCommandLine, Glyph.json, Op.text⟩

/-- What a run is given besides its arguments. -/
structure Surroundings where
  /-- The values of the variables that are set to a text. -/
  valueOf? : String → Option String
  /-- What reading standard input gives. -/
  input : Except FileFault ByteArray

/-- Bytes that have been read. -/
instance : Coe ByteArray (Except FileFault ByteArray) := ⟨.ok⟩

/-- The settings of a run: those of the variables, which must all be right, except where an option
says otherwise. -/
def settings (o : Options) (valueOf? : String → Option String) :
    Except SettingsError Settings := do
  let s ← Settings.ofVariables valueOf?
  let side ← match o.side with
    | none => pure s.side
    | some side =>
      if Scalar.usable side then pure side
      else throw (.notPositive "--side" (Decimal.messageText side))
  let limit ← match o.limit with
    | none => pure s.limit
    | some 0 => throw (.notPositive "--max-depth" "0")
    | some limit => pure limit
  return ⟨side, limit, o.folder.getD s.folder⟩

/-- The description of a run: the one that is given with its options, or else standard input. -/
def description (o : Options) (w : Surroundings) : Except FileFault String :=
  match o.description with
  | some text => .ok text
  | none => Files.asText w.input

/-- Whether a run comes to look at standard input: its settings are right, and there is no other
description. -/
def needsInput (o : Options) (valueOf? : String → Option String) : Bool :=
  (settings o valueOf?).isOk && o.description.isNone

structure Job where
  settings : Settings
  diagram : Diagram

namespace Job

def ofOptions (o : Options) (w : Surroundings) : Except RunError Job :=
  match Command.settings o w.valueOf? with
  | .error e => .error (.settings e)
  | .ok s =>
    match description o w with
    | .error cause => .error (.input cause)
    | .ok text =>
      match Description.read s.limit text.toList with
      | .error e => .error (.reading e)
      | .ok d => .ok ⟨s, d⟩

def paths (job : Job) : List String := job.diagram.leaves.map (Folder.path job.settings.folder)

/-- The log of drawing a job, with the given files. -/
def lines (job : Job) (tools : Tools) (files : String → Except FileFault ByteArray) :
    Except RunError (List String) :=
  let source : Source (Table × Unit) :=
    Source.cached (Source.ofFunction (Folder.answer tools.decoder files job.settings.folder))
  match job.diagram.renderOn source job.settings.side (Canvas.blank none) ({}, ()) with
  | (.error e, _) => .error (.drawing e)
  | (.ok (), canvas, _) => .ok (canvas.ops.toList.map tools.line)

end Job

inductive Outcome
  | help
  | version
  | refused
  | failed (e : RunError)
  | printed (lines : List String)

def helpLines : List String :=
  ["Render magic-circle notation to draw operations", "",
    "Usage: sigil [OPTIONS] [NOTATION]", "",
    "Arguments:",
    "  [NOTATION]  Notation text; read from stdin when omitted [env: SIGIL_NOTATION=]", "",
    "Options:",
    "      --side <SIDE>            Edge length of the drawing square (overrides SIGIL_SIDE)",
    "      --assets <ASSETS>        Glyph directory (overrides SIGIL_ASSET_DIR)",
    "      --max-depth <MAX_DEPTH>  Maximum group nesting (overrides SIGIL_MAX_DEPTH)",
    "  -v, --verbose...             Increase log verbosity",
    "  -h, --help                   Print help",
    "  -V, --version                Print version"]

def versionLine : String := "sigil 0.1.0"

namespace Outcome

def exitCode : Outcome → Nat
  | refused => 2
  | failed _ => 1
  | _ => 0

/-- The lines on standard output. -/
def output : Outcome → List String
  | help => helpLines
  | version => [versionLine]
  | printed lines => lines
  | _ => []

/-- The lines on standard error. -/
def errors : Outcome → List String
  | refused => ["error: unexpected arguments; try --help"]
  | failed e => [report e]
  | _ => []

end Outcome

namespace Tools

variable (tools : Tools) (args : List String) (w : Surroundings)

/-- The paths of the files that a run may look at. -/
def paths : List String :=
  match tools.invocation args w.valueOf? with
  | .run o =>
    match Job.ofOptions o w with
    | .ok job => job.paths
    | .error _ => []
  | _ => []

/-- Runs a command line on the given files. -/
def run (files : String → Except FileFault ByteArray) : Outcome :=
  match tools.invocation args w.valueOf? with
  | .help => .help
  | .version => .version
  | .refused => .refused
  | .run o =>
    match Job.ofOptions o w with
    | .error e => .failed e
    | .ok job =>
      match job.lines tools files with
      | .error e => .failed e
      | .ok lines => .printed lines

end Tools

/-- Runs a command line on the given files, with the standard tools. -/
def run : List String → Surroundings → (String → Except FileFault ByteArray) → Outcome :=
  Tools.standard.run

end MagicCircle.Command
