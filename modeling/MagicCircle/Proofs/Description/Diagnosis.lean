import MagicCircle.Description.Diagnosis
import MagicCircle.Proofs.Description.Delimiters

/-!
# Faults tell the truth

Whatever fault a text is refused with, what the fault says of the text is the case
(`read_fault_shows`), and the place it names is one where a character starts or the text ends.

What the scanner's state knows of the text so far, beside the groups that are open, is
`State.Follows`.
-/

namespace MagicCircle.Description

open Text

theorem ofMark?_eq_none_iff {w : List Char} :
    Triangle.ofMark? w = none ↔ w ∉ [['T'], ['D'], ['R']] := by
  unfold Triangle.ofMark?
  split <;> simp_all

/-- The place of a fault lies between the characters of the text. -/
theorem Shows.exists_before {limit o : Nat} {text : List Char} {f : Fault}
    (h : Shows limit text f) (ho : o ∈ f.offset?) : ∃ u v, text = u ++ v ∧ byteCount u = o := by
  cases h with
  | noDescription => cases ho
  | @missingMark before rest | @unknownMark before word rest =>
    cases ho
    refine ⟨before ++ [Bracket.angle.opening], _, List.append_cons .., ?_⟩
    rw [byteCount_append]
    rfl
  | _ =>
    cases ho
    exact ⟨_, _, rfl, rfl⟩

namespace Scanner

/-- What the state knows of the text so far. -/
def State.Follows (text : List Char) : State → Prop
  | start => ∀ a ∈ text, isSpace a = true
  | mark _ opened chars => ∃ before, text = before ++ Bracket.angle.opening :: chars ∧
      byteCount before = opened ∧ ∀ a ∈ chars, isWordChar a = true
  | _ => True

variable {limit : Nat} {text u v : List Char} {c : Char} {s s' : State} {f : Fault}

theorem follows_openGroup {around : List StackMachine.OpenGroup} {b : Bracket}
    (h : openGroup limit around b (byteCount u) = .ok s) : s.Follows (u ++ [b.opening]) := by
  unfold openGroup at h
  split at h
  · cases h
  · cases b <;> cases h
    · trivial
    · trivial
    · exact ⟨u, rfl, rfl, nofun⟩

theorem follows_closeGroup {g : StackMachine.OpenGroup} {outer : List StackMachine.OpenGroup}
    (h : closeGroup g outer = .ok s) : s.Follows text := by
  unfold closeGroup at h
  split at h
  · cases h
  · rcases outer with _ | ⟨g', outer⟩ <;> cases h <;> trivial

theorem follows_of_after (h : after limit text = .ok s) : s.Follows text := by
  refine forall_after (P := fun u s => s.Follows u) nofun ?_ h
  intro u c s s' ih hmove
  cases hmove with
  | blank hc =>
    intro a ha
    obtain ha | ha := List.mem_append.1 ha
    · exact ih a ha
    · rwa [List.mem_singleton.1 ha]
  | opening _ _ hopen => exact follows_openGroup hopen
  | closing _ hclose => exact follows_closeGroup hclose
  | mark around opened chars hc =>
    obtain ⟨before, rfl, hoffset, hchars⟩ := ih
    refine ⟨before, by simp, hoffset, fun a ha => ?_⟩
    obtain ha | ha := List.mem_append.1 ha
    · exact hchars a ha
    · rwa [List.mem_singleton.1 ha]
  | separator | name | word | colon | trailing => trivial

theorem after_of_blank (h : ∀ a ∈ text, isSpace a = true) : after limit text = .ok .start :=
  State.scan_run (f := fun _ => .start) (fun _ _ _ hc => if_pos hc) text [] 0 h

theorem Refuses.shows (hs : after limit u = .ok s)
    (h : Refuses limit (byteCount u) c s (.fault f)) : Shows limit (u ++ c :: v) f := by
  have hopen := unmatched_of_after hs
  have hfollows := follows_of_after hs
  have hdepth := length_delimiters_le hs
  cases h with
  | malformed hc hround => exact .malformed hfollows hc hround
  | tooDeep hb hlimit =>
    -- The open groups reach the limit and, by the invariant, do not pass it.
    refine .tooDeep ?_
    rw [hb.delimiters_eq] at hopen hdepth
    rw [hopen]
    rw [List.length_map] at hdepth ⊢
    omega
  | mismatchedClose hg hcl hc => exact .mismatchedClose (hopen.trans hg.delimiters_eq) hcl hc
  | definition hg =>
    rw [hg.delimiters_eq] at hopen
    exact .definitionsUnsupported (by simp [hopen])
  | unexpected hg hsep hcl hdm hop hw =>
    rw [hg.delimiters_eq] at hopen
    exact .unexpectedChar (by simp [hopen]) hsep hw hop hcl hdm
  | @missingMark _ chars around opened hw hc =>
    obtain ⟨before, rfl, rfl, hchars⟩ := hfollows
    rw [List.append_assoc, List.cons_append]
    refine .missingMark ?_
    rw [List.takeWhile_append_of_pos hchars, List.dropWhile_append_of_pos hchars]
    simpa [hw, eq_comm] using hc
  | unknownMark around opened hne hmark =>
    obtain ⟨before, rfl, rfl, hchars⟩ := hfollows
    rw [List.append_assoc, List.cons_append]
    exact .unknownMark hne hchars (ofMark?_eq_none_iff.1 hmark)
  | trailing d hc => exact .trailingInput (read_eq_ok_iff.2 hs) hc

theorem shows_unterminated {g : StackMachine.OpenGroup} {outer : List Delimiter}
    (h : unmatched text = delimiter g :: outer) :
    Shows limit text (.unterminated g.bracket.opening g.start) := by
  obtain ⟨before, rest, htext, hoffset⟩ :=
    mem_unmatched (d := delimiter g) (by rw [h]; exact List.mem_cons_self)
  simp only [delimiter] at htext hoffset h
  subst htext
  rw [← hoffset] at h ⊢
  exact .unterminated h

theorem shows_of_finish (hs : after limit text = .ok s) (h : s.finish = .error (.fault f)) :
    Shows limit text f := by
  have hopen := unmatched_of_after hs
  have hfollows := follows_of_after hs
  rcases s with _ | ⟨g, outer⟩ | ⟨g, outer, name⟩ | ⟨around, opened, chars⟩ | d
  case start =>
    cases h
    exact .noDescription hfollows
  case mark =>
    cases h
    obtain ⟨before, rfl, rfl, hchars⟩ := hfollows
    refine .missingMark (.inr ?_)
    rw [List.dropWhile_eq_nil_iff.2 hchars]
    nofun
  case done => cases h
  all_goals
    cases h
    exact shows_unterminated hopen

end Scanner

/-- A text is refused for want of a description exactly if it is blank. Whatever else it is refused
for, what the fault says is the case, and the place it names lies in the text, where a character
starts or at the end. -/
theorem read_fault_shows (limit : Nat) (text : List Char) :
    (read limit text = .error (.fault .noDescription) ↔ ∀ a ∈ text, isSpace a = true) ∧
      ∀ f, read limit text = .error (.fault f) → Shows limit text f ∧
        ∀ o ∈ f.offset?, o ≤ byteCount text ∧ (suffixAt? text o).isSome = true := by
  have hshows : ∀ f, read limit text = .error (.fault f) → Shows limit text f := by
    intro f h
    obtain h | ⟨s, hs, hfinish⟩ := Scanner.read_eq_error h
    · obtain ⟨u, c, v, s, rfl, hs, hrefuses, -⟩ := Scanner.after_eq_error h
      exact hrefuses.shows hs
    · exact Scanner.shows_of_finish hs hfinish
  refine ⟨⟨fun h => ?_, fun h => ?_⟩, fun f h => ⟨hshows f h, fun o ho => ?_⟩⟩
  · rcases hshows _ h with h | _
    exact h
  · exact Scanner.read_of_after (Scanner.after_of_blank h)
  · obtain ⟨u, v, rfl, rfl⟩ := (hshows f h).exists_before ho
    rw [byteCount_append, suffixAt?_append]
    exact ⟨Nat.le_add_right .., rfl⟩

end MagicCircle.Description
