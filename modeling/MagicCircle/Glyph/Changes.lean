import MagicCircle.Glyph.Folder
import MagicCircle.Glyph.History

/-!
# Folders that change

Files are written and removed, and in between names are looked up in a store whose source reads the
files of a folder. Relative paths start at `here`.
-/

namespace MagicCircle

open Files (Entry)

namespace Folder

inductive Step
  | write (path : String) (content : ByteArray)
  | remove (path : String)
  | resolve (name : String)

variable (here : List String)

/-- The tree of files after a step. -/
def Step.apply (tree : Entry) : Step → Entry
  | write path content => Entry.put (.file content) (Entry.placeOf here path) tree
  | remove path => Entry.remove (Entry.placeOf here path) tree
  | resolve _ => tree

/-- The look-ups among the steps, each with the tree of files by then. -/
def lookUps : Entry → List Step → List (Call Entry)
  | _, [] => []
  | tree, .resolve name :: steps => ⟨name, tree⟩ :: lookUps tree steps
  | tree, step :: steps => lookUps (step.apply here tree) steps

/-- The file of the name spells the glyph to the decoder. -/
def Spells (decoder : Glyph.Decoder) (folder : String) (tree : Entry) (name : String) (g : Glyph) :
    Prop :=
  ∃ bytes text, tree.read here (path folder name) = .ok bytes ∧
    String.fromUTF8? bytes = some text ∧ decoder text = .ok g.strokes

end Folder

namespace Source

variable {σ : Type} (source : Source σ)

/-- A source with no cache in front of it. -/
def uncached : Source (Unit × σ) := fun name s =>
  let (answer, t) := source name s.2
  (answer, (s.1, t))

/-- The responses are those to the look-ups, and every glyph among them is what the source gave at a
look-up of the same name, that one or an earlier one, which asked it. -/
structure Read (calls : List (Call σ)) (past : List Response) : Prop where
  names : past.map Response.name = calls.map Call.name
  found : ∀ (i : Nat) (r : Response) (g : Glyph), past[i]? = some r → r.answer = .ok g →
    ∃ j ≤ i, ∃ c p, calls[j]? = some c ∧ past[j]? = some p ∧ c.name = r.name ∧ p.asked = 1 ∧
      (source c.name c.state).1 = .ok g

end Source

end MagicCircle
