import MagicCircle.Glyph.Basic

/-!
# Sources of glyphs

A source looks up the glyph of a name. What it knows may change with each look-up, so a source works
on a state.
-/

namespace MagicCircle

abbrev Source (σ : Type) := String → StateM σ (Except GlyphError Glyph)

/-- Glyphs kept by name, each name at most once. -/
structure Table where
  entries : List (String × Glyph) := []

namespace Table

def insert (t : Table) (name : String) (g : Glyph) : Table :=
  ⟨(name, g) :: t.entries.filter fun e => e.1 ≠ name⟩

def get? (t : Table) (name : String) : Option Glyph := t.entries.lookup name

def size (t : Table) : Nat := t.entries.length

end Table

namespace Source

variable {σ : Type}

/-- The source whose answers never change. -/
def ofFunction (answer : String → Except GlyphError Glyph) : Source σ :=
  fun name => pure (answer name)

/-- The source that has a glyph for every name. -/
def ofGlyphs (glyph : String → Glyph) : Source σ := ofFunction fun name => .ok (glyph name)

/-- A source answers as a function does, whatever its state. -/
def Answers (source : Source σ) (answer : String → Except GlyphError Glyph) : Prop :=
  ∀ name s, (source name s).1 = answer name

/-- The state of a source after names have been looked up in it, one after the other. -/
def asked (source : Source σ) (names : List String) (s : σ) : σ :=
  names.foldl (fun s name => (source name s).2) s

/-- What a source answers when names are looked up in it, one after the other. -/
def answers (source : Source σ) : List String → σ → List (Except GlyphError Glyph)
  | [], _ => []
  | name :: names, s => (source name s).1 :: source.answers names (source name s).2

/-- Each of the names has a glyph when they are looked up one after the other. -/
def Resolves (source : Source σ) : List String → σ → Prop
  | [], _ => True
  | name :: names, s => (∃ g, (source name s).1 = .ok g) ∧ source.Resolves names (source name s).2

def table : Source Table := fun name => do
  match (← get).get? name with
  | some g => return .ok g
  | none => return .error (.notFound name)

/-- A source with the number of look-ups made in it. -/
def counted (source : Source σ) : Source (Nat × σ) := fun name s =>
  let (answer, t) := source name s.2
  (answer, (s.1 + 1, t))

/-- A source behind a table of the glyphs it has found: a name that has been found is looked up in
the table, any other in the source. Failures are not kept. -/
def cached (source : Source σ) : Source (Table × σ) := fun name s =>
  match s.1.get? name with
  | some g => (.ok g, s)
  | none =>
    match source name s.2 with
    | (.ok g, t) => (.ok g, (s.1.insert name g, t))
    | (.error e, t) => (.error e, (s.1, t))

end Source

end MagicCircle
