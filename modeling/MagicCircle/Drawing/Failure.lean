import MagicCircle.Canvas.Request
import MagicCircle.Drawing.Events
import MagicCircle.Drawing.Fault
import MagicCircle.Glyph.Source

/-!
# The first failure of a drawing

Which step of a drawing fails is settled by the answers to its look-ups and by how many strokes the
canvas still takes.
-/

namespace MagicCircle

variable {α : Type}

namespace Canvas

/-- How many strokes the canvas still takes; none refused if not given. -/
def left (c : Canvas α) : Option Nat := c.limit.map fun limit => limit - c.strokes

/-- How the canvas refuses a stroke that comes after `taken` others, if it does. -/
def refusal? (c : Canvas α) (taken : Nat) : Option Rejection :=
  match c.left with
  | none => none
  | some left =>
    if taken < left then none
    else some ⟨"stroke " ++ toString (c.strokes + taken + 1) ++ " rejected"⟩

end Canvas

/-- How looking up a rune's glyph fails, if it does. -/
def lookupFailure? (answer : String → Except GlyphError Glyph) (name : String) :
    Option (DrawError α) :=
  match answer name with
  | .ok _ => none
  | .error cause => some (.leaf name cause)

/-- How a step fails that comes after `taken` strokes, if it does. -/
def Event.failure? (answer : String → Except GlyphError Glyph) (c : Canvas α) (taken : Nat) :
    Event → Option (DrawError α)
  | lookup name =>
    match answer name with
    | .ok _ => none
    | .error cause => some (.leaf name cause)
  | glyph name => (c.refusal? taken).map (.glyph name)
  | _ => (c.refusal? taken).map .surface

/-- None of the steps fails, where `taken` strokes come before them. -/
def NoFailure (answer : String → Except GlyphError Glyph) (c : Canvas α) :
    Nat → List Event → Prop
  | _, [] => True
  | taken, step :: steps => step.failure? answer c taken = none ∧
    NoFailure answer c (taken + strokeCount [step]) steps

/-- A step fails as told, and none of the steps before it does. -/
structure FirstFailure (answer : String → Except GlyphError Glyph) (c : Canvas α)
    (before : List Event) (step : Event) (e : DrawError α) : Prop where
  passed : NoFailure answer c 0 before
  fails : step.failure? answer c (strokeCount before) = some e

/-- What a drawing of runes with the given names can fail with: what its source says of one of them,
the refusal of a stroke, or its side. -/
inductive DrawError.Arises {σ : Type} (source : Source σ) (names : List String) :
    DrawError α → Prop
  | leaf {name : String} {s : σ} {cause : GlyphError} :
      name ∈ names → (source name s).1 = .error cause → Arises source names (.leaf name cause)
  | glyph {name : String} (number : Nat) :
      name ∈ names → Arises source names (.glyph name (.ofStroke number))
  | surface (number : Nat) : Arises source names (.surface (.ofStroke number))
  | invalidSide (side : α) : Arises source names (.invalidSide side)

/-- Whether the mark is the one that a step leaves, or leads to, where the glyphs are as given. -/
def Event.leaves (glyph : String → Glyph) : Event → Mark α → Bool
  | .border, .arc .. => true
  | .border, .rect .. => true
  | .border, .polygon _ => true
  | .divider, .line _ => true
  | .lookup name, .glyph strokes .. => strokes == (glyph name).strokes.length
  | .glyph name, .glyph strokes .. => strokes == (glyph name).strokes.length
  | _, _ => false

end MagicCircle
