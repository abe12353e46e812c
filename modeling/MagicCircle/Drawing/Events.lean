import MagicCircle.Diagram.Basic

/-!
# What can fail in a drawing

The steps of a drawing that may fail, in the order in which they are taken.
-/

namespace MagicCircle

/-- A step that may fail. -/
inductive Event
  | border
  | divider
  | lookup (name : String)
  | glyph (name : String)
  deriving DecidableEq, Repr

namespace Event

def isStroke : Event → Bool
  | lookup _ => false
  | _ => true

def name? : Event → Option String
  | lookup name => some name
  | _ => none

end Event

def strokeCount (events : List Event) : Nat := events.countP Event.isStroke

def lookups (events : List Event) : List String := events.filterMap Event.name?

/-- The steps of drawing a diagram that may fail, in order. -/
def Diagram.events : Diagram → List Event
  | rune name => [.lookup name, .glyph name]
  | solo _ d => .border :: d.events
  | pair _ d e => .border :: .divider :: (d.events ++ e.events)

end MagicCircle
