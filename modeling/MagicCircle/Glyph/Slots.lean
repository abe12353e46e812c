import MagicCircle.Glyph.Source

/-!
# A cache of slots

A cache that several callers share has a slot for each name. A caller takes the slot of its name, or
a new one without a glyph, before it is known whether the name has a glyph at all. A slot that stays
empty is taken out of the cache again, unless another caller has filled or replaced it meanwhile.
-/

namespace MagicCircle

/-- The slots of a cache. A slot is known by a number, which is never given to another slot. -/
structure Slots where
  /-- The names that have a slot, each with its number. -/
  slotOf : List (String × Nat) := []
  /-- What is in each slot ever handed out. -/
  content : List (Option Glyph) := []

namespace Slots

/-- The glyph in a slot, if there is one. -/
def glyph? (k : Slots) (slot : Nat) : Option Glyph := (k.content[slot]?).join

/-- The slot of a name; a name without one gets a new slot. -/
def claim (k : Slots) (name : String) : Nat × Slots :=
  match k.slotOf.lookup name with
  | some slot => (slot, k)
  | none =>
    let slot := k.content.length
    (slot, ⟨(name, slot) :: k.slotOf, k.content ++ [none]⟩)

def fill (k : Slots) (slot : Nat) (g : Glyph) : Slots :=
  { k with content := k.content.set slot (some g) }

/-- Takes the slot of a name out of the cache, if it is still the slot of that name and empty. -/
def evict (k : Slots) (name : String) (slot : Nat) : Slots :=
  if k.slotOf.lookup name = some slot ∧ (k.glyph? slot).isNone then
    { k with slotOf := k.slotOf.filter fun p => p.1 ≠ name }
  else k

/-- How many names have a slot with a glyph in it. -/
def count (k : Slots) : Nat := k.slotOf.countP fun p => (k.glyph? p.2).isSome

/-- The glyphs in the slots of names. -/
def table (k : Slots) : Table :=
  ⟨k.slotOf.filterMap fun p => (k.glyph? p.2).map fun g => (p.1, g)⟩

end Slots

/-- A source behind a cache of slots. The slot is claimed first; then the glyph in it is the answer,
or else the source is asked, and the slot is filled or evicted. -/
def Source.slotted {σ : Type} (source : Source σ) : Source (Slots × σ) := fun name s =>
  let (slot, k) := s.1.claim name
  match k.glyph? slot with
  | some g => (.ok g, (k, s.2))
  | none =>
    match source name s.2 with
    | (.ok g, t) => (.ok g, (k.fill slot g, t))
    | (.error e, t) => (.error e, (k.evict name slot, t))

end MagicCircle
