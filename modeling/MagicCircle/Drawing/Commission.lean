import MagicCircle.Drawing.Record

/-!
# Drawings one after the other

Drawings that are made with one source, which keeps its state from each of them to the next. Every
drawing has a canvas of its own; it may be the one that an earlier drawing has left.
-/

namespace MagicCircle

variable {α σ τ : Type}

/-- A drawing to be made. -/
structure Commission (α : Type) where
  diagram : Diagram
  side : α
  /-- The canvas as it is when the drawing is made. -/
  canvas : Canvas α

/-- What became of a drawing, and its canvas after it. -/
abbrev Drawn (α : Type) := Except (DrawError α) Unit × Canvas α

/-- What a cache in front of a source holds after look-ups, and what it has asked the source for, where
the source answers as a function does: the glyphs of the names that have one, each of which took one
question, while each look-up of another name took a question of its own. -/
structure Source.Remembers (answer : String → Except GlyphError Glyph) (names : List String)
    (t : Table) (questions : List String) : Prop where
  get?_eq : ∀ n, t.get? n = if n ∈ names then (answer n).toOption else none
  count_found : ∀ n g, answer n = .ok g → questions.count n = if n ∈ names then 1 else 0
  count_missing : ∀ n e, answer n = .error e → questions.count n = names.count n

namespace Commission

variable [Scalar α]

def draw (w : Commission α) (source : Source σ) (s : σ) : Drawn α × σ :=
  let drawn := w.diagram.renderOn source w.side w.canvas s
  ((drawn.1, drawn.2.1), drawn.2.2)

/-- What becomes of drawings made in this order, and the state of the source after them. -/
def drawAll (source : Source σ) : List (Commission α) → σ → List (Drawn α) × σ
  | [], s => ([], s)
  | w :: ws, s =>
    let now := w.draw source s
    let rest := drawAll source ws now.2
    (now.1 :: rest.1, rest.2)

/-- The names that the drawing looks up. -/
def lookedUp (w : Commission α) (source : Source σ) (s : σ) : List String :=
  (w.draw (recorded source) ([], s)).2.1

end Commission

end MagicCircle
