import MagicCircle.Canvas.Basic
import MagicCircle.Glyph.Codec

/-!
# A log as text

Each entry of a log is written as a JSON object that names the operation first.
-/

namespace MagicCircle

open Json (Value)

namespace Op

def toJson : Op Float → Value
  | .save => .ofMembers [("op", .ofText "save")]
  | .restore => .ofMembers [("op", .ofText "restore")]
  | .translate x y =>
    .ofMembers [("op", .ofText "translate"), ("x", .ofFloat x), ("y", .ofFloat y)]
  | .rotate radians => .ofMembers [("op", .ofText "rotate"), ("radians", .ofFloat radians)]
  | .mark (.arc center radius start finish) =>
    .ofMembers [("op", .ofText "arc"), ("center", center.toJson), ("radius", .ofFloat radius),
      ("start", .ofFloat start), ("end", .ofFloat finish)]
  | .mark (.line segment) =>
    .ofMembers [("op", .ofText "line"), ("p1", segment.start.toJson),
      ("p2", segment.finish.toJson)]
  | .mark (.rect corner width height) =>
    .ofMembers [("op", .ofText "rect"), ("origin", corner.toJson), ("width", .ofFloat width),
      ("height", .ofFloat height)]
  | .mark (.polygon points) =>
    .ofMembers [("op", .ofText "polygon"), ("points", .array (points.map Point.toJson))]
  | .mark (.glyph strokes size place turned) =>
    .ofMembers [("op", .ofText "glyph"), ("strokes", .ofNat strokes), ("size", .ofFloat size),
      ("at", place.toJson), ("rotation", .ofFloat turned)]

def text (op : Op Float) : String := op.toJson.text

end Op

end MagicCircle
