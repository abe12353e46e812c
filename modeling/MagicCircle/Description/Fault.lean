import MagicCircle.Diagram.Basic
import MagicCircle.Text.Line

/-!
# Faults of a text

Why a text describes no diagram, and where in the text that shows. Offsets count bytes.
-/

namespace MagicCircle.Description

inductive Fault
  | noDescription
  | malformed (found : Char) (offset : Nat)
  | trailingInput (offset : Nat)
  | unexpectedChar (found : Char) (offset : Nat)
  | mismatchedClose (expected found : Char) (offset : Nat)
  | unterminated (opening : Char) (offset : Nat)
  | missingMark (offset : Nat)
  | unknownMark (mark : String) (offset : Nat)
  | definitionsUnsupported (offset : Nat)
  | tooDeep (limit offset : Nat)
  deriving DecidableEq, Repr

/-- Where in the text the fault shows; an empty text has no such place. -/
def Fault.offset? : Fault → Option Nat
  | noDescription => none
  | malformed _ o | trailingInput o | unexpectedChar _ o | mismatchedClose _ _ o
  | unterminated _ o | missingMark o | unknownMark _ o | definitionsUnsupported o
  | tooDeep _ o => some o

private def quoted (c : Char) : String := "'" ++ String.singleton c ++ "'"

private def atOffset (offset : Nat) : String := " at offset " ++ toString offset

instance : Reportable Fault where
  code
    | .noDescription => "E_NO_DESCRIPTION"
    | .malformed .. => "E_MALFORMED"
    | .trailingInput _ => "E_TRAILING_INPUT"
    | .unexpectedChar .. => "E_UNEXPECTED_CHAR"
    | .mismatchedClose .. => "E_MISMATCHED_CLOSE"
    | .unterminated .. => "E_UNTERMINATED"
    | .missingMark _ => "E_MISSING_PREFIX"
    | .unknownMark .. => "E_UNKNOWN_PREFIX"
    | .definitionsUnsupported _ => "E_UNSUPPORTED"
    | .tooDeep .. => "E_TOO_DEEP"
  message
    | .noDescription => "no description found"
    | .malformed c o => "malformed description: unexpected " ++ quoted c ++ atOffset o
    | .trailingInput o => "unexpected input after description" ++ atOffset o
    | .unexpectedChar c o => "unexpected character " ++ quoted c ++ atOffset o
    | .mismatchedClose e c o =>
      "mismatched closing " ++ quoted c ++ atOffset o ++ ", expected " ++ quoted e
    | .unterminated c o => "unterminated " ++ quoted c ++ " opened" ++ atOffset o
    | .missingMark o => "missing shape prefix (expected `T:`, `D:` or `R:`)" ++ atOffset o
    | .unknownMark m o => "unrecognized shape prefix '" ++ m ++ "'" ++ atOffset o
    | .definitionsUnsupported o =>
      "definitions ('\x7b') are not yet supported (offset " ++ toString o ++ ")"
    | .tooDeep l o => "nesting deeper than " ++ toString l ++ " groups" ++ atOffset o

/-- The characters that the message of a fault repeats, in its order. -/
def Fault.quotes : Fault → List Char
  | malformed c _ | unexpectedChar c _ | unterminated c _ => [c]
  | mismatchedClose e c _ => [c, e]
  | unknownMark m _ => m.toList
  | _ => []

/-- The message of a fault is one line, unless it repeats a line feed. -/
theorem Fault.oneLine_message_iff (f : Fault) :
    Text.OneLine (Reportable.message f) ↔ '\n' ∉ f.quotes := by
  rcases f with _ | _ | _ | _ | _ | _ | _ | _ | _ | _ <;>
    simp [Reportable.message, quotes, quoted, atOffset, Text.OneLine, Text.newline_not_mem_toDigits]

inductive ReadError
  | fault (f : Fault)
  /-- The text describes a group that no shape can hold. -/
  | structural (e : StructureError)
  deriving DecidableEq, Repr

instance : Reportable ReadError where
  code
    | .fault f => Reportable.code f
    | .structural e => Reportable.code e
  message
    | .fault f => "syntax error: " ++ Reportable.message f
    | .structural e => "structure error: " ++ Reportable.message e

end MagicCircle.Description
