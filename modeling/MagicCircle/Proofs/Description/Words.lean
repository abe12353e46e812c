import MagicCircle.Proofs.Description.Grammar

/-!
# The names in a description

Every rune of a diagram that a text is read as has a word of that text for its name
(`wordOf_of_read`).
-/

namespace MagicCircle.Description

variable {text w : List Char} {name : String}

theorem WordOf.mono (h : WordOf w name) (hw : w <:+: text) : WordOf text name :=
  ⟨h.nonempty, h.isWordChar_of_mem, h.occurs.trans hw⟩

theorem leaves_of_composed {shape : Shape} {ds : List Diagram} {d : Diagram}
    (h : Composed shape ds d) : d.leaves = ds.flatMap Diagram.leaves := by
  rcases h with _ | _ <;> simp [Diagram.leaves]

mutual

theorem GroupText.wordOf {n : Nat} {w : List Char} {d : Diagram} (h : GroupText n w d) :
    ∀ name ∈ d.leaves, WordOf w name := by
  intro name hname
  match h with
  | .mk _ b head body _ ds _ _ hbody hd =>
    rw [leaves_of_composed hd] at hname
    refine (hbody.wordOf name hname).mono ⟨b.opening :: head, [b.closing], ?_⟩
    simp

theorem BodyText.wordOf {n : Nat} {w : List Char} {ds : List Diagram} (h : BodyText n w ds) :
    ∀ name ∈ ds.flatMap Diagram.leaves, WordOf w name := by
  intro name hname
  match h with
  | .nil _ => cases hname
  | .separator _ c rest _ _ hrest =>
    exact (hrest.wordOf name hname).mono (List.suffix_cons ..).isInfix
  | .rune _ word rest ds hne hword _ hrest =>
    rw [List.flatMap_cons, List.mem_append] at hname
    rcases hname with hname | hname
    · obtain rfl := List.mem_singleton.1 hname
      have hlist : (String.ofList word).toList = word := String.toList_ofList
      refine ⟨?_, ?_, ?_⟩ <;> rw [hlist]
      · exact hne
      · exact hword
      · exact (List.prefix_append ..).isInfix
    · exact (hrest.wordOf name hname).mono (List.suffix_append ..).isInfix
  | .group _ v rest d ds hd hrest =>
    rw [List.flatMap_cons, List.mem_append] at hname
    rcases hname with hname | hname
    · exact (hd.wordOf name hname).mono (List.prefix_append ..).isInfix
    · exact (hrest.wordOf name hname).mono (List.suffix_append ..).isInfix

end

theorem wordOf_of_read {limit : Nat} {d : Diagram} (h : read limit text = .ok d) :
    ∀ name ∈ d.leaves, WordOf text name := by
  intro name hname
  obtain ⟨before, w, after, rfl, -, -, hgroup, -⟩ := describes_of_read h
  exact (hgroup.wordOf name hname).mono (List.infix_append ..)

end MagicCircle.Description
