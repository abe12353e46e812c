import MagicCircle.Glyph.Source

/-!
# Histories of look-ups

Look-ups made one after the other in a store that keeps a cache in front of a source. The source may
have changed in any way from one look-up to the next, so every look-up comes with the state that the
source is in when it is made.
-/

namespace MagicCircle

variable {σ κ : Type}

/-- A look-up: the name, and the state that the source is in by then. -/
structure Call (σ : Type) where
  name : String
  state : σ

/-- What came of a look-up. -/
structure Response where
  name : String
  answer : Except GlyphError Glyph
  /-- How many look-ups in the source it took. -/
  asked : Nat

/-- The glyph that the look-up found, if it was one for the given name. -/
def Response.found? (name : String) (r : Response) : Option Glyph :=
  if r.name = name then r.answer.toOption else none

/-- The glyph that was found first for a name. -/
def firstFound? (past : List Response) (name : String) : Option Glyph :=
  past.findSome? (Response.found? name)

/-- The names that a glyph was found for, as often as one was. -/
def foundNames (past : List Response) : List String :=
  past.filterMap fun r => r.answer.toOption.map fun _ => r.name

namespace Source

/-- What comes of a look-up in a store, and the cache after it. The store counts the look-ups in its
source. -/
def respond (store : Source (κ × Nat × σ)) (cache : κ) (c : Call σ) : Response × κ :=
  let now := store c.name (cache, 0, c.state)
  (⟨c.name, now.1, now.2.2.1⟩, now.2.1)

/-- What comes of look-ups one after the other, and the cache after them. -/
def responses (store : Source (κ × Nat × σ)) : κ → List (Call σ) → List Response × κ
  | cache, [] => ([], cache)
  | cache, c :: calls =>
    let now := store.respond cache c
    let rest := store.responses now.2 calls
    (now.1 :: rest.1, rest.2)

end Source

end MagicCircle
