/-!
# Lines

A text is one line if no line feed occurs in it. A text of many lines has a line feed after each.
-/

namespace MagicCircle.Text

def OneLine (text : String) : Prop := '\n' ∉ text.toList

/-- The text that the lines make up. -/
def ofLines (lines : List String) : String :=
  String.ofList (lines.flatMap fun line => line.toList ++ ['\n'])

instance (text : String) : Decidable (OneLine text) :=
  inferInstanceAs (Decidable ('\n' ∉ text.toList))

@[simp] theorem oneLine_append {s t : String} : OneLine (s ++ t) ↔ OneLine s ∧ OneLine t := by
  simp [OneLine]

/-- Lines that make up a text are told apart by their line feeds. -/
theorem splitOn_ofLines : ∀ {lines : List String}, (∀ line ∈ lines, OneLine line) →
    (ofLines lines).toList.splitOn '\n' = lines.map String.toList ++ [[]]
  | [], _ => by simp [ofLines]
  | line :: lines, h => by
    have ih := splitOn_ofLines fun l hl => h l (.tail _ hl)
    have hcons : (ofLines (line :: lines)).toList =
        line.toList ++ '\n' :: (ofLines lines).toList := by
      simp [ofLines]
    rw [hcons, List.splitOn_append_cons_self_of_not_mem (h line (.head _)), ih]
    rfl

theorem oneLine_ofList {cs : List Char} : OneLine (String.ofList cs) ↔ '\n' ∉ cs := by
  rw [OneLine, String.toList_ofList]

theorem newline_not_mem_toDigits (n : Nat) : '\n' ∉ Nat.toDigits 10 n := by
  intro h
  have hdigit : '\n'.isDigit = true := Nat.isDigit_of_mem_toDigits (by decide) (by decide) h
  cases hdigit

@[simp] theorem oneLine_repr (n : Nat) : OneLine n.repr := by
  rw [OneLine, Nat.toList_repr]
  exact newline_not_mem_toDigits n

end MagicCircle.Text
