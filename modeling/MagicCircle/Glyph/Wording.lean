import MagicCircle.Glyph.Source
import MagicCircle.Text.Line

/-!
# The wording of failures

A decoder words its reasons itself, and a source repeats them. Both are tidy if they keep to lines: a
decoder if all of its reasons are one line, a source if whatever it says of names that are one line is
one line.
-/

namespace MagicCircle

open Text (OneLine)

def Glyph.Decoder.Tidy (decoder : Decoder) : Prop :=
  ∀ text reason, decoder text = .error reason → OneLine reason

def Source.Tidy {σ : Type} (source : Source σ) : Prop :=
  ∀ name s e, OneLine name → (source name s).1 = .error e → OneLine (Reportable.message e)

end MagicCircle
