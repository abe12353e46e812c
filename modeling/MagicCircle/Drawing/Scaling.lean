import MagicCircle.Drawing.Basic

/-!
# Scaling a drawing

Everything that has to do with a drawing, made `k` times as large: lengths and coordinates are
multiplied by `k`, while angles and numbers of strokes stay as they are.
-/

namespace MagicCircle

variable {α σ β : Type} [Mul α] (k : α)

def Point.scaled (p : Point α) : Point α := ⟨k * p.x, k * p.y⟩

def Segment.scaled (l : Segment α) : Segment α := ⟨l.start.scaled k, l.finish.scaled k⟩

def Border.scaled : Border α → Border α
  | circle center radius => .circle (center.scaled k) (k * radius)
  | square corner side => .square (corner.scaled k) (k * side)
  | triangle p q r => .triangle (p.scaled k) (q.scaled k) (r.scaled k)

def Region.scaled (r : Region α) : Region α := ⟨r.corner.scaled k, k * r.size⟩

def SoloPlan.scaled (p : SoloPlan α) : SoloPlan α := ⟨p.border.scaled k, p.region.scaled k⟩

def PairPlan.scaled (p : PairPlan α) : PairPlan α where
  border := p.border.scaled k
  divider := p.divider.scaled k
  first := p.first.scaled k
  second := p.second.scaled k

/-- The frame at a place `k` times as far away, turned as before. -/
def Frame.scaled (t : Frame α) : Frame α := { t with e := k * t.e, f := k * t.f }

def Mark.scaled : Mark α → Mark α
  | arc center radius start finish => .arc (center.scaled k) (k * radius) start finish
  | line segment => .line (segment.scaled k)
  | rect corner width height => .rect (corner.scaled k) (k * width) (k * height)
  | polygon points => .polygon (points.map (Point.scaled k))
  | glyph strokes size place turned => .glyph strokes (k * size) (place.scaled k) turned

def Op.scaled : Op α → Op α
  | save => .save
  | restore => .restore
  | translate x y => .translate (k * x) (k * y)
  | rotate radians => .rotate radians
  | mark m => .mark (m.scaled k)

def Canvas.scaled (c : Canvas α) : Canvas α :=
  { c with
    ops := c.ops.map (Op.scaled k)
    frame := c.frame.scaled k
    saved := c.saved.map (Frame.scaled k) }

/-- The only failure that tells of a length is that of the side itself. -/
def DrawError.scaled : DrawError α → DrawError α
  | leaf name cause => .leaf name cause
  | glyph name cause => .glyph name cause
  | surface cause => .surface cause
  | invalidSide side => .invalidSide (k * side)

/-- What a drawing step comes to, scaled. -/
def Draw.scaled (r : Except (DrawError α) β × Canvas α × σ) :
    Except (DrawError α) β × Canvas α × σ :=
  (r.1.mapError (DrawError.scaled k), r.2.1.scaled k, r.2.2)

end MagicCircle
