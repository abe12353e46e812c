import MagicCircle.Glyph.Basic
import MagicCircle.Json.Float
import MagicCircle.Json.Number
import MagicCircle.Json.Printer
import MagicCircle.Json.Reader

/-!
# Glyphs as text

A glyph is written as an object with the member `strokes`, a point as an object with the members `x`
and `y`. Each of the two may also be written as the array of its members' values. Other members are
passed over; a known one must be there exactly once, and every key must be text.
-/

namespace MagicCircle

open Json (Value)

def Point.toJson (p : Point Float) : Value :=
  .ofMembers [("x", .ofFloat p.x), ("y", .ofFloat p.y)]

namespace Glyph

def toJson (g : Glyph) : Value :=
  .ofMembers [("strokes", .array (g.strokes.map fun s => .array (s.map Point.toJson)))]

def encode (g : Glyph) : String := g.toJson.text

/-- The value of the one member with the given key. -/
def member? (members : List (Option String × Value)) (key : String) : Option Value :=
  match members.filter fun m => m.1 == some key with
  | [m] => some m.2
  | _ => none

/-- The values of the members with the given keys, in this order, of an object or of an array that
stands for one. -/
def fields? (keys : List String) : Value → Option (List Value)
  | .array vs => if vs.length = keys.length then some vs else none
  | .object members =>
    if members.all fun m => m.1.isSome then keys.mapM (member? members) else none
  | _ => none

def float? : Value → Option Float
  | .number n => Json.float? n
  | _ => none

def point? (v : Value) : Option (Point Float) :=
  match fields? ["x", "y"] v with
  | some [x, y] => do return ⟨← float? x, ← float? y⟩
  | _ => none

def stroke? : Value → Option (List (Point Float))
  | .array vs => vs.mapM point?
  | _ => none

/-- The strokes that a value spells. -/
def strokes? (v : Value) : Option (List (List (Point Float))) :=
  match fields? ["strokes"] v with
  | some [.array vs] => vs.mapM stroke?
  | _ => none

/-- The decoder of JSON texts. -/
def json : Decoder := fun text =>
  match Json.read? text.toList with
  | none => .error "invalid JSON"
  | some v =>
    match strokes? v with
    | none => .error "invalid glyph"
    | some strokes => .ok strokes

/-- The glyph that a JSON text spells, if it can be drawn. -/
def decode (name text : String) : Except GlyphError Glyph := decodeWith json name text

end Glyph

end MagicCircle
