import MagicCircle.Plane.Point
import MagicCircle.Files.Fault
import MagicCircle.Report

/-!
# Glyphs

A glyph is what a rune looks like: polylines in the unit square, which are scaled to the region that
the rune is drawn into.
-/

namespace MagicCircle

structure Glyph where
  strokes : List (List (Point Float))

inductive Flaw
  | noStrokes
  | emptyStroke
  | outsideUnitSquare
  /-- Its text does not spell a glyph, for the reason that the decoder gives. -/
  | undecodable (reason : String)
  deriving DecidableEq, Repr

namespace Flaw

def text : Flaw → String
  | noStrokes => "no strokes"
  | emptyStroke => "empty stroke"
  | outsideUnitSquare => "point outside the unit square"
  | undecodable reason => reason

end Flaw

def inUnit (v : Float) : Bool := 0 ≤ v && v ≤ 1

namespace Glyph

def strokeFlaw? (stroke : List (Point Float)) : Option Flaw :=
  if stroke.isEmpty then some .emptyStroke
  else if stroke.any fun p => !inUnit p.x || !inUnit p.y then some .outsideUnitSquare
  else none

def flaw? (g : Glyph) : Option Flaw :=
  if g.strokes.isEmpty then some .noStrokes else g.strokes.findSome? strokeFlaw?

end Glyph

inductive GlyphError
  | notFound (name : String)
  /-- What was found is not a glyph that can be drawn. -/
  | malformed (name : String) (flaw : Flaw)
  | unreadable (name : String) (cause : Files.FileFault)
  deriving DecidableEq, Repr

instance : Reportable GlyphError where
  code
    | .notFound _ => "E_ASSET_NOT_FOUND"
    | .malformed .. => "E_ASSET_MALFORMED"
    | .unreadable .. => "E_ASSET_IO"
  message
    | .notFound name => "glyph not found: " ++ name
    | .malformed name flaw => "glyph '" ++ name ++ "' is malformed: " ++ flaw.text
    | .unreadable name cause => "glyph '" ++ name ++ "' could not be read: " ++ cause.text
  retryable
    | .unreadable .. => true
    | _ => false

namespace Glyph

/-- Lets a glyph through that has no flaw. -/
def validate (name : String) (g : Glyph) : Except GlyphError Glyph :=
  match g.flaw? with
  | some flaw => .error (.malformed name flaw)
  | none => .ok g

/-- A reader of texts. It gives the strokes that a text spells, or says in its own words why the text
spells none. -/
abbrev Decoder := String → Except String (List (List (Point Float)))

/-- The glyph that a text spells to the decoder, if it can be drawn. -/
def decodeWith (decoder : Decoder) (name text : String) : Except GlyphError Glyph :=
  match decoder text with
  | .error reason => .error (.malformed name (.undecodable reason))
  | .ok strokes => validate name ⟨strokes⟩

end Glyph

end MagicCircle
