import MagicCircle.Arrangement
import MagicCircle.Canvas.Trace
import MagicCircle.Drawing.Basic
import MagicCircle.Exact.Scalar
import Mathlib.Order.CompletePartialOrder

/-!
# Pictures

Where the strokes of a drawing lie in the plane. `Placed` tells of a list of strokes that they are a
diagram drawn into a square of the canvas: what belongs to a shape itself lies in the square of the
shape, and the squares of its components lie inside its border, on opposite sides of its dividing
line if there are two.
-/

namespace MagicCircle

open Set (Icc)

def Region.points (r : Region ℝ) : Set (Point ℝ) :=
  {p | p.x ∈ Icc r.corner.x (r.corner.x + r.size) ∧ p.y ∈ Icc r.corner.y (r.corner.y + r.size)}

namespace Segment

def points (l : Segment ℝ) : Set (Point ℝ) :=
  {p | ∃ t ∈ Icc (0 : ℝ) 1, p.x = (1 - t) * l.start.x + t * l.finish.x ∧
    p.y = (1 - t) * l.start.y + t * l.finish.y}

/-- Zero on the line through the segment; its sign tells the two sides of the line apart. -/
def side (l : Segment ℝ) (p : Point ℝ) : ℝ :=
  (l.finish.x - l.start.x) * (p.y - l.start.y) - (l.finish.y - l.start.y) * (p.x - l.start.x)

/-- The sets lie strictly on opposite sides of the line through the segment. -/
def Separates (l : Segment ℝ) (A B : Set (Point ℝ)) : Prop :=
  ∀ p ∈ A, ∀ p' ∈ B, l.side p * l.side p' < 0

end Segment

/-- The edges of the polygon with the given corners; the last one closes it. -/
def outline (corners : List (Point ℝ)) : Set (Point ℝ) :=
  {p | ∃ l ∈ List.zipWith Segment.mk corners (corners.rotate 1), p ∈ l.points}

/-- The points that a border encloses, and those on it. -/
def Border.area : Border ℝ → Set (Point ℝ)
  | circle center radius => {p | (p.x - center.x) ^ 2 + (p.y - center.y) ^ 2 ≤ radius ^ 2}
  | square corner side => Region.points ⟨corner, side⟩
  | triangle p q r => {x | ∃ u v w : ℝ, 0 ≤ u ∧ 0 ≤ v ∧ 0 ≤ w ∧ u + v + w = 1 ∧
      x.x = u * p.x + v * q.x + w * r.x ∧ x.y = u * p.y + v * q.y + w * r.y}

/-- The points of a stroke in the frame it is made in; those of a glyph are the square it is scaled
to. -/
noncomputable def Mark.points : Mark ℝ → Set (Point ℝ)
  | arc center radius start finish => {p | ∃ angle ∈ Icc start finish,
      p = ⟨center.x + radius * Real.cos angle, center.y + radius * Real.sin angle⟩}
  | line segment => segment.points
  | rect corner width height => outline [corner, ⟨corner.x + width, corner.y⟩,
      ⟨corner.x + width, corner.y + height⟩, ⟨corner.x, corner.y + height⟩]
  | polygon corners => outline corners
  | glyph _ size _ _ => Region.points ⟨Point.origin, size⟩

noncomputable def Trace.points (t : Trace ℝ) : Set (Point ℝ) := t.frame.apply '' t.mark.points

/-- The segment as it lies on the canvas. -/
noncomputable def Frame.carry (t : Frame ℝ) (l : Segment ℝ) : Segment ℝ :=
  ⟨t.apply l.start, t.apply l.finish⟩

/-- The stroke is a glyph that stands upright in a square of the canvas and is as large as it. -/
structure Trace.Fills (t : Trace ℝ) (square : Region ℝ) : Prop where
  mark : ∃ strokes, t.mark = .glyph strokes square.size square.corner 0
  points : t.points = square.points

/-- The stroke is an upright glyph with so many shapes around it, each of which leaves it at most four
fifths of what there is. -/
def Trace.Shrunk (side : ℝ) (depth : Nat) (t : Trace ℝ) : Prop :=
  ∃ square, t.Fills square ∧ 0 < square.size ∧ square.size ≤ 0.8 ^ depth * side

/-- In a frame, the region is a square of the canvas that lies inside the border. -/
structure Region.Lands (region : Region ℝ) (frame : Frame ℝ) (border : Border ℝ)
    (square : Region ℝ) : Prop where
  size : square.size = region.size
  points : square.points = frame.apply '' region.points
  inside : square.points ⊆ frame.apply '' border.area

/-- The strokes are those of the diagram, drawn into a square of the canvas. -/
inductive Placed : Diagram → Region ℝ → List (Trace ℝ) → Prop
  | rune {name : String} {square : Region ℝ} {t : Trace ℝ} (fills : t.Fills square) :
      Placed (.rune name) square [t]
  | solo {shape : Shape} {d : Diagram} {square inner : Region ℝ} {border : Trace ℝ}
      {ts : List (Trace ℝ)}
      (mark : border.mark = (shape.solo square.size).border.mark)
      (within : border.points ⊆ square.points)
      (area : border.frame.apply '' (shape.solo square.size).border.area ⊆ square.points)
      (lands : (shape.solo square.size).region.Lands border.frame
        (shape.solo square.size).border inner)
      (rest : Placed d inner ts) :
      Placed (.solo shape d) square (border :: ts)
  | pair {shape : Shape} {d e : Diagram} {square first second : Region ℝ}
      {border divider : Trace ℝ} {ts ts' : List (Trace ℝ)}
      (mark : border.mark = (shape.pair square.size).border.mark)
      (within : border.points ⊆ square.points)
      (area : border.frame.apply '' (shape.pair square.size).border.area ⊆ square.points)
      (line : divider = ⟨border.frame, .line (shape.pair square.size).divider⟩)
      (line_within : divider.points ⊆ square.points)
      (lands : (shape.pair square.size).first.Lands border.frame
        (shape.pair square.size).border first)
      (lands' : (shape.pair square.size).second.Lands border.frame
        (shape.pair square.size).border second)
      (disjoint : Disjoint first.points second.points)
      (apart : (border.frame.carry (shape.pair square.size).divider).Separates
        first.points second.points)
      (rest : Placed d first ts) (rest' : Placed e second ts') :
      Placed (.pair shape d e) square (border :: divider :: (ts ++ ts'))

end MagicCircle
