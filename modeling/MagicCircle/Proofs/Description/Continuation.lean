import MagicCircle.Description.Continuation
import MagicCircle.Proofs.Description.Diagnosis

/-!
# Reading goes from left to right

What the characters of a text have decided is not revised by later ones (`read_append`): a fault
found at a character stays, whatever comes after that character, and a text that is read stays read
until something else than a blank follows it. More text can only mend what the end of the text was
refused for.
-/

namespace MagicCircle.Description

open Text

namespace Scanner

variable {limit o : Nat} {text more u : List Char} {c : Char} {s : State} {f : Fault}
  {e : ReadError} {d : Diagram}

theorem Refuses.offset? (h : Refuses limit o c s (.fault f)) (hf : f.isAtCharacter = true) :
    f.offset? = some o := by
  cases h with
  | missingMark | unknownMark => cases hf
  | _ => rfl

theorem skipWhile_mark (before rest : List Char) :
    skipWhile isWordChar (before ++ Bracket.angle.opening :: rest) (byteCount before + 1) =
      byteCount before + 1 + byteCount (rest.takeWhile isWordChar) := by
  have h := skipWhile_append isWordChar (before ++ [Bracket.angle.opening]) rest
  rwa [byteCount_append, List.append_assoc] at h

theorem unfinished_of_finish (hs : after limit text = .ok s) (h : s.finish = .error e) :
    Unfinished text e := by
  have hfollows := follows_of_after hs
  rcases s with _ | ⟨g, outer⟩ | ⟨g, outer, name⟩ | ⟨around, opened, chars⟩ | d <;> cases h
  case start => exact .noDescription
  case mark =>
    obtain ⟨before, rfl, rfl, hchars⟩ := hfollows
    refine .missingMark _ ?_
    rw [skipWhile_mark, List.takeWhile_eq_self_iff.2 hchars, byteCount_append, byteCount_cons,
      Bracket.utf8Size_opening, Nat.add_assoc]
  all_goals exact .unterminated _ _

theorem Refuses.not_unfinished (hs : after limit u = .ok s)
    (h : Refuses limit (byteCount u) c s e) (v : List Char) : ¬ Unfinished (u ++ c :: v) e := by
  have hfollows := follows_of_after hs
  rintro (_ | ⟨_, _⟩ | ⟨o, hend⟩) <;> cases h
  -- What is left is a missing mark, whose word ends before the refused character.
  rename_i chars around opened hw hc
  obtain ⟨before, rfl, rfl, hchars⟩ := hfollows
  have hpos := c.utf8Size_pos
  rw [List.append_assoc, List.cons_append, skipWhile_mark,
    List.takeWhile_append_of_pos hchars, List.takeWhile_cons_of_neg (by simp [hw]),
    List.append_nil, byteCount_append before, byteCount_cons, byteCount_append chars,
    byteCount_cons, Bracket.utf8Size_opening] at hend
  omega

theorem read_of_after_done (h : after limit text = .ok (.done d)) (more : List Char) :
    Description.read limit (text ++ more) =
      if more.all isSpace then .ok d
      else .error (.fault (.trailingInput
        (byteCount text + byteCount (more.takeWhile isSpace)))) := by
  have hread : Description.read limit (text ++ more) =
      readOn limit (.done d) ⟨byteCount text, more⟩ := by
    rw [read_eq_scanner_read, read, after_append, h]
    rfl
  rw [hread, readOn_done, endAt, Tail.skip]
  by_cases hall : more.all isSpace = true
  · rw [if_pos hall, List.dropWhile_eq_nil_iff.2 (List.all_eq_true.1 hall)]
  · rw [if_neg hall]
    rcases hdrop : more.dropWhile isSpace with _ | ⟨c, cs⟩
    · exact absurd (List.all_eq_true.2 (List.dropWhile_eq_nil_iff.1 hdrop)) hall
    · rfl

/-- A text whose end is refused can go on in a way that changes the fault. -/
theorem exists_read_append_ne (hs : after limit text = .ok s) (h : s.finish = .error e) :
    ∃ more, Description.read limit (text ++ more) ≠ .error e := by
  have hmore (more : List Char) : after limit (text ++ more) =
      s.scan limit (byteCount text) more := by
    rw [after_append, hs]
    rfl
  rcases s with _ | ⟨g, outer⟩ | ⟨g, outer, name⟩ | ⟨around, opened, chars⟩ | d <;> cases h
  case start =>
    refine ⟨['x'], ?_⟩
    rw [read_of_after_error (hmore ['x'])]
    intro heq
    cases heq
  case mark =>
    -- The colon ends the word, so a mark is there, be it an unknown one.
    refine ⟨['T', ':'], ?_⟩
    have hcolon : after limit (text ++ ['T', ':']) =
        markStep around opened (chars ++ ['T']) ':' :=
      (hmore _).trans (State.scan_singleton (.mark around opened (chars ++ ['T'])))
    rw [markStep, if_neg (by decide), if_pos ⟨rfl, by simp⟩] at hcolon
    split at hcolon
    · rw [read_of_after_error hcolon]
      intro heq
      cases heq
    · rw [read_of_after hcolon]
      intro heq
      cases heq
  all_goals
    refine ⟨[definitionMark], ?_⟩
    rw [read_of_after_error (hmore [definitionMark])]
    intro heq
    cases heq

end Scanner

/-- What has been decided stays decided, whatever text follows: only a text that was refused at its
end can be mended by more of it. -/
theorem read_append (limit : Nat) (text : List Char) :
    (∀ d, read limit text = .ok d → ∀ more, read limit (text ++ more) =
        if more.all isSpace then .ok d
        else .error (.fault (.trailingInput
          (byteCount text + byteCount (more.takeWhile isSpace))))) ∧
      (∀ f o, read limit text = .error (.fault f) → f.isAtCharacter = true → f.offset? = some o →
        ∃ u c v, text = u ++ c :: v ∧ byteCount u = o ∧
          ∀ v', read limit (u ++ c :: v') = .error (.fault f)) ∧
      (∀ e, read limit text = .error e →
        (∃ mark o, e = .fault (.unknownMark mark o)) ∨ (∃ s, e = .structural s) →
          ∀ more, read limit (text ++ more) = .error e) ∧
      ∀ e, read limit text = .error e →
        ((∃ more, read limit (text ++ more) ≠ .error e) ↔ Unfinished text e) := by
  have hrefused : ∀ {e}, Scanner.after limit text = .error e → ∀ more,
      read limit (text ++ more) = .error e := fun h more =>
    Scanner.read_of_after_error (Scanner.after_append_of_error h more)
  refine ⟨fun d h more => ?_, fun f o h hf ho => ?_, fun e h he more => ?_, fun e h => ?_⟩
  · exact Scanner.read_of_after_done (Scanner.read_eq_ok_iff.1 h) more
  · obtain h | ⟨s, hs, hfinish⟩ := Scanner.read_eq_error h
    · obtain ⟨u, c, v, s, rfl, -, hrefuses, hu⟩ := Scanner.after_eq_error h
      rw [hrefuses.offset? hf] at ho
      refine ⟨u, c, v, rfl, Option.some.inj ho, fun v' => ?_⟩
      have hv' := Scanner.after_append_of_error hu v'
      rw [List.append_assoc, List.singleton_append] at hv'
      exact Scanner.read_of_after_error hv'
    · cases Scanner.unfinished_of_finish hs hfinish <;> cases hf
  · obtain h | ⟨s, hs, hfinish⟩ := Scanner.read_eq_error h
    · exact hrefused h more
    · cases Scanner.unfinished_of_finish hs hfinish <;> simp at he
  · obtain h | ⟨s, hs, hfinish⟩ := Scanner.read_eq_error h
    · refine ⟨fun ⟨more, hne⟩ => absurd (hrefused h more) hne, fun hunfinished => ?_⟩
      obtain ⟨u, c, v, s, rfl, hs, hrefuses, -⟩ := Scanner.after_eq_error h
      exact absurd hunfinished (hrefuses.not_unfinished hs v)
    · exact ⟨fun _ => Scanner.unfinished_of_finish hs hfinish,
        fun _ => Scanner.exists_read_append_ne hs hfinish⟩

end MagicCircle.Description
