import MagicCircle.Json.Printer
import Mathlib.Tactic.SplitIfs

/-!
# Printed JSON is one line

No value is printed with a newline in it: in a string the newline is escaped, and the printer itself
puts none between values.
-/

namespace MagicCircle.Json

open Decimal (Numeral)

theorem newline_ne_digitChar (d : Nat) : '\n' ≠ Nat.digitChar d :=
  (Nat.digitChar_ne '\n' (by decide)).symm

theorem newline_not_mem_digitChars (ds : List Nat) : '\n' ∉ Numeral.digitChars ds := by
  unfold Numeral.digitChars
  intro h
  obtain ⟨d, -, hd⟩ := List.mem_map.1 h
  exact newline_ne_digitChar d hd.symm

theorem newline_not_mem_numeral (n : Numeral) : '\n' ∉ n.chars := by
  have hwhole := newline_not_mem_digitChars n.whole
  have hfraction := newline_not_mem_digitChars n.fraction
  unfold Numeral.chars
  simp only [List.mem_append, not_or]
  refine ⟨⟨⟨?_, hwhole⟩, ?_⟩, ?_⟩
  · split <;> simp
  · split <;> simp [hfraction]
  · rcases n.exponent with _ | e
    · simp
    · have hdigits := newline_not_mem_digitChars (Decimal.digits e.natAbs)
      dsimp only
      split <;> simp [hdigits]

theorem newline_not_mem_escape (c : Char) : '\n' ∉ escape c := by
  unfold escape
  split_ifs with _ _ h
  all_goals try simp
  · change '\n' ∉ ['\\', 'u', '0', '0', Nat.digitChar (c.toNat / 16), Nat.digitChar (c.toNat % 16)]
    simp [newline_ne_digitChar]
  · exact Ne.symm h

theorem newline_not_mem_quote (s : String) : '\n' ∉ quote s := by
  unfold quote
  simp [newline_not_mem_escape]

mutual

theorem newline_not_mem_print : ∀ v : Value, '\n' ∉ print v
  | .null => by simp [print]
  | .bool true => by simp [print]
  | .bool false => by simp [print]
  | .number n => by
    rw [print]
    exact newline_not_mem_numeral n
  | .string none => by simp [print]
  | .string (some s) => by
    rw [print]
    exact newline_not_mem_quote s
  | .array vs => by simp [print, newline_not_mem_printItems vs]
  | .object ms => by simp [print, newline_not_mem_printMembers ms]

theorem newline_not_mem_printItems : ∀ vs : List Value, '\n' ∉ printItems vs
  | [] => by simp [printItems]
  | [v] => by simp [printItems, newline_not_mem_print v]
  | v :: w :: vs => by
    simp [printItems, newline_not_mem_print v, newline_not_mem_printItems (w :: vs)]

theorem newline_not_mem_printMembers : ∀ ms : List (Option String × Value), '\n' ∉ printMembers ms
  | [] => by simp [printMembers]
  | [(key, v)] => by simp [printMembers, newline_not_mem_quote, newline_not_mem_print v]
  | (key, v) :: m :: ms => by
    simp [printMembers, newline_not_mem_quote, newline_not_mem_print v,
      newline_not_mem_printMembers (m :: ms)]

end

theorem newline_not_mem_text (v : Value) : '\n' ∉ v.text.toList := by
  rw [Value.text, String.toList_ofList]
  exact newline_not_mem_print v

end MagicCircle.Json
