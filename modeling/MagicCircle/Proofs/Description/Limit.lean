import MagicCircle.Description.Overrun
import MagicCircle.Proofs.Description.Diagnosis
import MagicCircle.Proofs.Description.Height
import MagicCircle.Proofs.Diagram.Complexity
import Mathlib.Order.Bounds.Basic

/-!
# The limit is a cut-off

Under a lower limit the scanner does what it does under a higher one, until a bracket opens one
group too many (`Scanner.scan_limit`). Which bracket that is can be told from what a reader without
limits makes of the text before it (`read_eq_tooDeep_iff`).
-/

namespace MagicCircle.Description

open Text

namespace Scanner

open StackMachine (OpenGroup)

variable {n m limit unlimited o : Nat} {c : Char} {s s' : State} {g : OpenGroup} {b : Bracket}
  {outer around : List OpenGroup} {text u v : List Char} {d : Diagram} {e : ReadError}

theorem openGroup_limit (h : n ≤ m) (around : List OpenGroup) (b : Bracket) (o : Nat) :
    openGroup n around b o = openGroup m around b o ∨
      openGroup n around b o = .error (.fault (.tooDeep n o)) := by
  unfold openGroup
  by_cases hn : n ≤ around.length
  · exact .inr (if_pos hn)
  · rw [if_neg hn, if_neg (by omega)]
    exact .inl rfl

theorem bodyStep_limit (h : n ≤ m) (g : OpenGroup) (outer : List OpenGroup) (o : Nat) (c : Char) :
    bodyStep n g outer o c = bodyStep m g outer o c ∨
      bodyStep n g outer o c = .error (.fault (.tooDeep n o)) := by
  unfold bodyStep
  split_ifs
  all_goals try exact .inl rfl
  all_goals
    rcases Bracket.ofOpening? c with _ | b
    · exact .inl rfl
    · exact openGroup_limit h (g :: outer) b o

theorem step_limit (h : n ≤ m) (o : Nat) (c : Char) : ∀ s : State,
    s.step n o c = s.step m o c ∨ s.step n o c = .error (.fault (.tooDeep n o))
  | .start => by
    simp only [State.step]
    split_ifs
    · exact .inl rfl
    · exact openGroup_limit h [] .round o
    · exact .inl rfl
  | .body g outer => bodyStep_limit h g outer o c
  | .word g outer name => by
    simp only [State.step]
    split_ifs
    · exact .inl rfl
    · exact bodyStep_limit h _ outer o c
  | .mark .. => .inl rfl
  | .done _ => .inl rfl

theorem scan_limit (h : n ≤ m) : ∀ (cs : List Char) (o : Nat) (s : State),
    s.scan n o cs = s.scan m o cs ∨ ∃ o', s.scan n o cs = .error (.fault (.tooDeep n o'))
  | [], _, _ => .inl rfl
  | c :: cs, o, s => by
    rw [State.scan, State.scan]
    obtain hstep | hstep := step_limit h o c s
    · rw [hstep]
      rcases s.step m o c with e | s'
      · exact .inl rfl
      · exact scan_limit h cs _ s'
    · rw [hstep]
      exact .inr ⟨o, rfl⟩

theorem after_limit (h : n ≤ m) (text : List Char) :
    after n text = after m text ∨ ∃ o, after n text = .error (.fault (.tooDeep n o)) :=
  scan_limit h text 0 .start

theorem after_of_le (h : n ≤ m) (hs : after n text = .ok s) : after m text = .ok s := by
  obtain heq | ⟨o, herror⟩ := after_limit h text
  · rw [← heq, hs]
  · rw [hs] at herror
    cases herror

theorem finish_ne_tooDeep (s : State) (l o : Nat) :
    s.finish ≠ .error (.fault (.tooDeep l o)) := by
  rcases s with _ | _ | _ | _ | _ <;> nofun

theorem step_opening (h : s.Opens b around) :
    s.step limit o b.opening = openGroup limit around b o := by
  have hword : isWordChar b.opening = false := by cases b <;> rfl
  rcases h with _ | ⟨_, ⟨_, _⟩ | ⟨_, _, _⟩⟩
  · rfl
  all_goals simp [State.step, bodyStep, hword, Bracket.opening_ne_definitionMark]

theorem step_definitionMark (h : s.Inside g outer) :
    s.step limit o definitionMark = .error (.fault (.definitionsUnsupported o)) := by
  rcases h with _ | _ <;> rfl

theorem Opens.after_concat (hs : after limit u = .ok s) (hb : s.Opens b around)
    (hlimit : limit ≤ around.length) :
    after limit (u ++ [b.opening]) = .error (.fault (.tooDeep limit (byteCount u))) := by
  rw [Scanner.after_concat, hs]
  exact (step_opening hb).trans (if_pos hlimit)

theorem endsInGroup_iff :
    EndsInGroup limit text ↔ ∃ s g outer, after limit text = .ok s ∧ s.Inside g outer := by
  constructor
  · rintro ⟨c, o, h⟩
    obtain h | ⟨s, hs, hfinish⟩ := read_eq_error h
    · obtain ⟨u, c, v, s, rfl, -, hrefuses, -⟩ := after_eq_error h
      cases hrefuses
    · rcases s with _ | ⟨g, outer⟩ | ⟨g, outer, name⟩ | _ | _ <;> cases hfinish
      · exact ⟨_, _, _, hs, .body g outer⟩
      · exact ⟨_, _, _, hs, .word g outer name⟩
  · rintro ⟨s, g, outer, hs, _ | _⟩ <;> exact ⟨_, _, read_of_after hs⟩

end Scanner

variable {n m l o limit unlimited : Nat} {b : Bracket} {text before rest : List Char}

/-- Where reading goes too deep, a bracket overruns the limit. -/
theorem overruns_of_tooDeep (hu : text.length < unlimited)
    (h : Scanner.after n text = .error (.fault (.tooDeep l o))) :
    l = n ∧ ∃ before b rest s, text = before ++ Bracket.opening b :: rest ∧
      byteCount before = o ∧ Overruns n unlimited before b ∧ Scanner.after n before = .ok s := by
  obtain ⟨before, c, rest, s, rfl, hs, hrefuses, -⟩ := Scanner.after_eq_error h
  cases hrefuses
  rename_i b around hlimit hb
  have hopen := Scanner.unmatched_of_after hs
  have hdepth := Scanner.length_delimiters_le hs
  have hlength := length_unmatched_le before
  rw [hopen] at hlength
  rw [hb.delimiters_eq, List.length_map] at hdepth hlength
  refine ⟨rfl, before, b, rest, s, rfl, rfl, ?_, hs⟩
  rcases hb with _ | ⟨b, hg⟩
  · obtain rfl : n = 0 := by simpa using hlimit
    exact ⟨Scanner.follows_of_after hs, rfl⟩
  · rw [List.length_cons] at hdepth hlimit hlength
    rw [List.length_append, List.length_cons] at hu
    rw [Overruns, if_neg (by omega)]
    have hs' := Scanner.after_of_le (m := unlimited) (by omega) hs
    refine ⟨Scanner.endsInGroup_iff.2 ⟨_, _, _, hs', hg⟩, ?_⟩
    rw [hopen, hg.delimiters_eq, List.length_cons, List.length_map]
    omega

/-- A bracket that overruns the limit is refused, unless reading has gone too deep before it. -/
theorem Overruns.after_concat (h : Overruns n unlimited before b)
    (hu : before.length < unlimited) :
    Scanner.after n (before ++ [b.opening]) =
        .error (.fault (.tooDeep n (byteCount before))) ∨
      ∃ o, Scanner.after n before = .error (.fault (.tooDeep n o)) := by
  rw [Overruns] at h
  split_ifs at h with hn
  · obtain ⟨hblank, rfl⟩ := h
    obtain rfl := hn
    exact .inl (Scanner.Opens.after_concat (Scanner.after_of_blank hblank) .start (Nat.zero_le _))
  · obtain ⟨hends, hopen⟩ := h
    obtain ⟨s, g, outer, hs, hg⟩ := Scanner.endsInGroup_iff.1 hends
    have hlength := length_unmatched_le before
    rw [Scanner.unmatched_of_after hs, hg.delimiters_eq, List.length_cons, List.length_map]
      at hopen hlength
    obtain heq | htooDeep := Scanner.after_limit (m := unlimited) (by omega : n ≤ unlimited) before
    · refine .inl (Scanner.Opens.after_concat (heq.trans hs) (.inside b hg) ?_)
      rw [List.length_cons]
      omega
    · exact .inr htooDeep

theorem read_eq_tooDeep_iff_after :
    read n text = .error (.fault (.tooDeep l o)) ↔
      Scanner.after n text = .error (.fault (.tooDeep l o)) := by
  refine ⟨fun h => ?_, Scanner.read_of_after_error⟩
  obtain h | ⟨s, -, hfinish⟩ := Scanner.read_eq_error h
  · exact h
  · exact absurd hfinish (Scanner.finish_ne_tooDeep s l o)

theorem read_eq_tooDeep_iff (hu : text.length < unlimited) :
    read n text = .error (.fault (.tooDeep l o)) ↔
      l = n ∧ IsLeast {o | OverrunAt n unlimited text o} o := by
  rw [read_eq_tooDeep_iff_after]
  constructor
  · intro h
    obtain ⟨rfl, before, b, rest, s, rfl, rfl, hover, hs⟩ := overruns_of_tooDeep hu h
    refine ⟨rfl, ⟨before, b, rest, rfl, rfl, hover⟩, ?_⟩
    rintro o' ⟨before', b', rest', htext, rfl, hover'⟩
    by_contra hlt
    -- A bracket at a smaller offset lies in what the scanner has taken already.
    obtain ⟨w, rfl⟩ := exists_of_byteCount_lt htext (Nat.lt_of_not_le hlt)
    simp only [List.length_append, List.length_cons] at hu
    obtain hstop | ⟨o, hstop⟩ := hover'.after_concat (by omega)
    · have hbefore := Scanner.after_append_of_error hstop w
      rw [List.append_assoc, List.singleton_append, hs] at hbefore
      cases hbefore
    · rw [Scanner.after_append_of_error hstop] at hs
      cases hs
  · rintro ⟨rfl, ⟨before, b, rest, rfl, rfl, hover⟩, hleast⟩
    simp only [List.length_append, List.length_cons] at hu
    obtain hstop | ⟨o, hstop⟩ := hover.after_concat (by omega)
    · have htext := Scanner.after_append_of_error hstop rest
      rwa [List.append_assoc, List.singleton_append] at htext
    · obtain ⟨-, before', b', rest', s, rfl, rfl, hover', -⟩ :=
        overruns_of_tooDeep (by omega : before.length < unlimited) hstop
      have hle := hleast ⟨before', b', rest' ++ b.opening :: rest, by simp, rfl, hover'⟩
      rw [byteCount_append, byteCount_cons, Bracket.utf8Size_opening] at hle
      omega

/-- The limit cuts reading off and does nothing else. A text is read within a limit if it is read
without one and the diagram, whose height is its complexity, keeps the limit. A fault other than
that of going too deep is the same within any higher limit. Reading goes too deep at the first
bracket that opens one group too many, and a definition in a group is refused as such within every
limit that lets reading get there. -/
theorem read_limit (hnm : n ≤ m) (hu : byteCount text < unlimited) :
    (∀ d, read n text = .ok d ↔ read unlimited text = .ok d ∧ d.height ≤ n) ∧
      (∀ d, read unlimited text = .ok d → (d.complexity : EReal) = d.height) ∧
      (∀ e, read n text = .error e → (∀ l o, e ≠ .fault (.tooDeep l o)) →
        read m text = .error e) ∧
      (∀ l o, read n text = .error (.fault (.tooDeep l o)) ↔
        l = n ∧ IsLeast {o | OverrunAt n unlimited text o} o) ∧
      ∀ before rest, text = before ++ definitionMark :: rest → EndsInGroup n before →
        read n text = .error (.fault (.definitionsUnsupported (byteCount before))) := by
  have hlength := Nat.lt_of_le_of_lt (length_le_byteCount text) hu
  refine ⟨fun d => read_eq_ok_iff_of_length_lt hlength, fun d _ => d.complexity_eq_height,
    fun e h hne => ?_, fun l o => read_eq_tooDeep_iff hlength, ?_⟩
  · rw [read_eq_scanner_read, Scanner.read] at h ⊢
    obtain heq | ⟨o, herror⟩ := Scanner.after_limit hnm text
    · rwa [← heq]
    · rw [herror] at h
      cases h
      exact absurd rfl (hne n o)
  · rintro before rest rfl hends
    obtain ⟨s, g, outer, hs, hg⟩ := Scanner.endsInGroup_iff.1 hends
    have hconcat := Scanner.after_concat n before definitionMark
    rw [hs] at hconcat
    have hstop := Scanner.after_append_of_error
      (hconcat.trans (Scanner.step_definitionMark hg)) rest
    rw [List.append_assoc, List.singleton_append] at hstop
    exact Scanner.read_of_after_error hstop

/-- Two groups, read within a limit of two. -/
theorem read_limit_nested :
    2 ≤ 3 ∧ byteCount ['(', '(', 'a', ')', ')'] < 6 ∧
      read 2 ['(', '(', 'a', ')', ')'] = .ok (.solo .spell (.solo .spell (.rune "a"))) := by
  have hread : read 6 ['(', '(', 'a', ')', ')'] = .ok (.solo .spell (.solo .spell (.rune "a"))) :=
    (read_eq_scanner_read ..).trans rfl
  refine ⟨by decide, by decide, ?_⟩
  exact ((read_limit (m := 3) (by decide) (by decide)).1 _).2 ⟨hread, by decide⟩

end MagicCircle.Description
