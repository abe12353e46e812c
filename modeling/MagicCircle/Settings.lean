import MagicCircle.Decimal.Reader
import MagicCircle.Decimal.Shortest
import MagicCircle.Files.Path
import MagicCircle.Description.Reader
import MagicCircle.Report
import MagicCircle.Scalar
import MagicCircle.Text.Blank

/-!
# Settings

The side that diagrams are drawn with, the number of groups that may stand inside each other, and
the folder that holds the glyphs. Variables may set each of them.
-/

namespace MagicCircle

structure Settings where
  /-- The side of the square that a diagram is drawn into. -/
  side : Float
  /-- How many groups may stand inside each other. -/
  limit : Nat
  folder : String

/-- A setting that cannot be used. The value is kept as it was given. -/
inductive SettingsError
  /-- The value is no number of the kind that is needed. -/
  | unreadable (key value : String)
  /-- The number is not in the range that is needed. -/
  | notPositive (key value : String)
  deriving DecidableEq, Repr

instance : Reportable SettingsError where
  code
    | .unreadable .. => "E_CONFIG_PARSE"
    | .notPositive .. => "E_CONFIG_RANGE"
  message
    | .unreadable key value => "config parse failed: " ++ key ++ "=" ++ value
    | .notPositive key value => key ++ " must be a positive finite number, got " ++ value

namespace Settings

/-- What holds unless it is set otherwise. -/
def standard : Settings := ⟨500, Description.defaultLimit, "runes"⟩

def sideVariable : String := "SIGIL_SIDE"
def limitVariable : String := "SIGIL_MAX_DEPTH"
def folderVariable : String := "SIGIL_ASSET_DIR"

def readSide : Option String → Except SettingsError Float
  | none => .ok standard.side
  | some raw =>
    match Decimal.readFloat? (Text.trim raw.toList) with
    | none => .error (.unreadable sideVariable raw)
    | some side =>
      if Scalar.usable side then .ok side else .error (.notPositive sideVariable raw)

def readLimit : Option String → Except SettingsError Nat
  | none => .ok standard.limit
  | some raw =>
    match Decimal.readNatural? (Text.trim raw.toList) with
    | none => .error (.unreadable limitVariable raw)
    | some 0 => .error (.notPositive limitVariable raw)
    | some limit => .ok limit

/-- The folder that a variable sets; a blank one sets none. -/
def readFolder : Option String → String
  | none => standard.folder
  | some raw => if Text.trim raw.toList = [] then standard.folder else raw

/-- The settings that variables make. The side is looked at first, then the limit. -/
def ofVariables (valueOf? : String → Option String) : Except SettingsError Settings :=
  match readSide (valueOf? sideVariable) with
  | .error e => .error e
  | .ok side =>
    match readLimit (valueOf? limitVariable) with
    | .error e => .error e
    | .ok limit => .ok ⟨side, limit, readFolder (valueOf? folderVariable)⟩

/-- Whether nothing is set otherwise than by default. Folders are compared as paths. -/
def isStandard (s : Settings) : Bool :=
  s.side == standard.side && s.limit == standard.limit
    && Files.Path.sameAs s.folder standard.folder

end Settings

end MagicCircle
