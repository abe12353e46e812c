import MagicCircle.Proofs.Description.Scanner
import Mathlib.Data.List.Induction

/-!
# What a character does

`Moves` and `Refuses` list all that the scanner can do with a character, and nothing else opens its
step. `forall_after` shows an invariant of its states character by character, and
`read_eq_error` says how a text comes to be refused: by one of its characters or by its end.
-/

namespace MagicCircle.Description.Scanner

open Text
open StackMachine (OpenGroup)

/-- The innermost group of a state and the groups around it. In a name, the rune counts as one of
the components. -/
inductive State.Inside : State → OpenGroup → List OpenGroup → Prop
  | body (g : OpenGroup) (outer : List OpenGroup) : Inside (.body g outer) g outer
  | word (g : OpenGroup) (outer : List OpenGroup) (name : List Char) :
      Inside (.word g outer name) (g.push (.rune (String.ofList name))) outer

/-- The brackets that may open a group in a state, and the groups around that group. -/
inductive State.Opens : State → Bracket → List OpenGroup → Prop
  | start : Opens .start .round []
  | inside {s : State} {g : OpenGroup} {outer : List OpenGroup} (b : Bracket) :
      s.Inside g outer → Opens s b (g :: outer)

/-- How the scanner goes on with the character `c`, which stands at `o`. -/
inductive Moves (limit o : Nat) : Char → State → State → Prop
  | blank {c : Char} : isSpace c = true → Moves limit o c .start .start
  | opening {s s' : State} {b : Bracket} {around : List OpenGroup} :
      s.Opens b around → around.length < limit → openGroup limit around b o = .ok s' →
      Moves limit o b.opening s s'
  | separator {c : Char} {s : State} {g : OpenGroup} {outer : List OpenGroup} :
      s.Inside g outer → isSeparator c = true → Moves limit o c s (.body g outer)
  | closing {s s' : State} {g : OpenGroup} {outer : List OpenGroup} :
      s.Inside g outer → closeGroup g outer = .ok s' → Moves limit o g.bracket.closing s s'
  | name {c : Char} (g : OpenGroup) (outer : List OpenGroup) :
      isWordChar c = true → Moves limit o c (.body g outer) (.word g outer [c])
  | word {c : Char} (g : OpenGroup) (outer : List OpenGroup) (name : List Char) :
      isWordChar c = true →
      Moves limit o c (.word g outer name) (.word g outer (name ++ [c]))
  | mark {c : Char} (around : List OpenGroup) (opened : Nat) (chars : List Char) :
      isWordChar c = true →
      Moves limit o c (.mark around opened chars) (.mark around opened (chars ++ [c]))
  | colon {chars : List Char} {t : Triangle} (around : List OpenGroup) (opened : Nat) :
      Triangle.ofMark? chars = some t →
      Moves limit o ':' (.mark around opened chars)
        (.body ⟨.triangle t, .angle, opened, []⟩ around)
  | trailing {c : Char} (d : Diagram) : isSpace c = true → Moves limit o c (.done d) (.done d)

/-- How the scanner refuses the character `c`, which stands at `o`. -/
inductive Refuses (limit o : Nat) : Char → State → ReadError → Prop
  | malformed {c : Char} : isSpace c = false → c ≠ Bracket.round.opening →
      Refuses limit o c .start (.fault (.malformed c o))
  | tooDeep {s : State} {b : Bracket} {around : List OpenGroup} :
      s.Opens b around → limit ≤ around.length →
      Refuses limit o b.opening s (.fault (.tooDeep limit o))
  | mismatchedClose {c : Char} {s : State} {g : OpenGroup} {outer : List OpenGroup} :
      s.Inside g outer → isClosing c = true → c ≠ g.bracket.closing →
      Refuses limit o c s (.fault (.mismatchedClose g.bracket.closing c o))
  | structural {s : State} {g : OpenGroup} {outer : List OpenGroup} {e : StructureError} :
      s.Inside g outer → Diagram.group g.shape g.components = .error e →
      Refuses limit o g.bracket.closing s (.structural e)
  | definition {s : State} {g : OpenGroup} {outer : List OpenGroup} :
      s.Inside g outer → Refuses limit o definitionMark s (.fault (.definitionsUnsupported o))
  | unexpected {c : Char} {s : State} {g : OpenGroup} {outer : List OpenGroup} :
      s.Inside g outer → isSeparator c = false → isClosing c = false → c ≠ definitionMark →
      Bracket.ofOpening? c = none → isWordChar c = false →
      Refuses limit o c s (.fault (.unexpectedChar c o))
  | missingMark {c : Char} {chars : List Char} (around : List OpenGroup) (opened : Nat) :
      isWordChar c = false → (chars = [] ∨ c ≠ ':') →
      Refuses limit o c (.mark around opened chars) (.fault (.missingMark (opened + 1)))
  | unknownMark {chars : List Char} (around : List OpenGroup) (opened : Nat) :
      chars ≠ [] → Triangle.ofMark? chars = none →
      Refuses limit o ':' (.mark around opened chars)
        (.fault (.unknownMark (String.ofList chars) (opened + 1)))
  | trailing {c : Char} (d : Diagram) : isSpace c = false →
      Refuses limit o c (.done d) (.fault (.trailingInput o))

section Step

variable {limit o : Nat} {c : Char} {s s' : State} {e : ReadError} {g : OpenGroup}
  {outer around : List OpenGroup} {b : Bracket}

/-- The character either moves the scanner on or is refused. -/
def Decides (limit o : Nat) (c : Char) (s : State) : Except ReadError State → Prop
  | .ok s' => Moves limit o c s s'
  | .error e => Refuses limit o c s e

theorem decides_openGroup (h : s.Opens b around) :
    Decides limit o b.opening s (openGroup limit around b o) := by
  rcases hr : openGroup limit around b o with e | s'
  · unfold openGroup at hr
    split at hr
    · cases hr
      exact .tooDeep h ‹_›
    · cases b <;> cases hr
  · refine .opening h ?_ hr
    by_contra hl
    rw [openGroup.eq_def, if_pos (by omega)] at hr
    cases hr

theorem decides_closeGroup (h : s.Inside g outer) :
    Decides limit o g.bracket.closing s (closeGroup g outer) := by
  rcases hr : closeGroup g outer with e | s'
  · simp only [closeGroup, OpenGroup.close] at hr
    rcases hd : Diagram.group g.shape g.components with e' | d <;> simp only [hd] at hr
    · cases hr
      exact .structural h hd
    · rcases outer with _ | ⟨g', outer⟩ <;> cases hr
  · exact .closing h hr

/-- Between components, a character that is no word character is treated alike in a body and at the
end of a name. -/
theorem decides_bodyStep (h : s.Inside g outer)
    (hw : isWordChar c = true → s = .body g outer) :
    Decides limit o c s (bodyStep limit g outer o c) := by
  unfold bodyStep
  by_cases hsep : isSeparator c = true
  · rw [if_pos hsep]
    exact .separator h hsep
  rw [if_neg hsep]
  by_cases hcl : isClosing c = true
  · rw [if_pos hcl]
    split_ifs with hc
    · subst hc
      exact decides_closeGroup h
    · exact .mismatchedClose h hcl hc
  rw [if_neg hcl]
  by_cases hdm : c = definitionMark
  · rw [if_pos hdm]
    subst hdm
    exact .definition h
  rw [if_neg hdm]
  rcases hb : Bracket.ofOpening? c with _ | b
  · dsimp only
    split_ifs with hword
    · obtain rfl := hw hword
      exact .name g outer hword
    · exact .unexpected h (by simpa using hsep) (by simpa using hcl) hdm hb (by simpa using hword)
  · cases Bracket.eq_opening_of_ofOpening? hb
    exact decides_openGroup (.inside b h)

theorem decides_markStep (around : List OpenGroup) (opened : Nat) (chars : List Char) :
    Decides limit o c (.mark around opened chars) (markStep around opened chars c) := by
  unfold markStep
  split_ifs with hw hc
  · exact .mark around opened chars hw
  · obtain ⟨rfl, hne⟩ := hc
    rcases ht : Triangle.ofMark? chars with _ | t
    · exact .unknownMark around opened hne ht
    · exact .colon around opened ht
  · refine .missingMark around opened (by simpa using hw) ?_
    by_contra hboth
    simp only [not_or, not_not] at hboth
    exact hc ⟨hboth.2, hboth.1⟩

theorem decides_step (limit o : Nat) (c : Char) :
    ∀ s : State, Decides limit o c s (s.step limit o c)
  | .start => by
    rw [State.step]
    split_ifs with hs hc
    · exact .blank hs
    · subst hc
      exact decides_openGroup .start
    · exact .malformed (by simpa using hs) hc
  | .body g outer => decides_bodyStep (.body g outer) fun _ => rfl
  | .word g outer name => by
    rw [State.step]
    split_ifs with hw
    · exact .word g outer name hw
    · exact decides_bodyStep (.word g outer name) fun h => absurd h hw
  | .mark around opened chars => decides_markStep around opened chars
  | .done d => by
    rw [State.step]
    split_ifs with hs
    · exact .trailing d hs
    · exact .trailing d (by simpa using hs)

theorem moves_of_step (h : s.step limit o c = .ok s') : Moves limit o c s s' := by
  have hd := decides_step limit o c s
  rw [h] at hd
  exact hd

theorem refuses_of_step (h : s.step limit o c = .error e) : Refuses limit o c s e := by
  have hd := decides_step limit o c s
  rw [h] at hd
  exact hd

end Step

section Texts

variable {limit : Nat} {u v text : List Char} {c : Char} {s s' : State} {e : ReadError}
  {d : Diagram}

theorem after_append (limit : Nat) (u v : List Char) :
    after limit (u ++ v) = after limit u >>= State.scan limit (byteCount u) v := by
  rw [after, State.scan_append, Nat.zero_add]
  rfl

theorem after_concat (limit : Nat) (u : List Char) (c : Char) :
    after limit (u ++ [c]) = after limit u >>= State.step limit (byteCount u) c := by
  rw [after_append]
  exact congrArg (after limit u >>= ·) (funext State.scan_singleton)

theorem forall_after {P : List Char → State → Prop} (hstart : P [] .start)
    (hstep : ∀ u c s s', P u s → Moves limit (byteCount u) c s s' → P (u ++ [c]) s')
    (h : after limit text = .ok s) : P text s := by
  induction text using List.reverseRecOn generalizing s with
  | nil =>
    cases h
    exact hstart
  | append_singleton u c ih =>
    rw [after_concat] at h
    obtain ⟨s', hu, hs⟩ := bind_eq_ok.1 h
    exact hstep u c s' s (ih hu) (moves_of_step hs)

theorem after_append_of_error (h : after limit u = .error e) (v : List Char) :
    after limit (u ++ v) = .error e := by
  rw [after_append, h]
  rfl

theorem after_eq_error (h : after limit text = .error e) :
    ∃ u c v s, text = u ++ c :: v ∧ after limit u = .ok s ∧ Refuses limit (byteCount u) c s e ∧
      after limit (u ++ [c]) = .error e := by
  induction text using List.reverseRecOn with
  | nil => cases h
  | append_singleton u c ih =>
    have hconcat := after_concat limit u c
    rcases hu : after limit u with e' | s
    · rw [hu, h] at hconcat
      cases hconcat
      obtain ⟨u', c', v, s, rfl, hrest⟩ := ih hu
      exact ⟨u', c', v ++ [c], s, by simp, hrest⟩
    · rw [hu, h] at hconcat
      exact ⟨u, c, [], s, rfl, hu, refuses_of_step hconcat.symm, h⟩

theorem finish_eq_ok (h : s.finish = .ok d) : s = .done d := by
  rcases s with _ | _ | _ | _ | _ <;> cases h
  rfl

theorem read_eq_ok_iff :
    Description.read limit text = .ok d ↔ after limit text = .ok (.done d) := by
  rw [read_eq_scanner_read, read, bind_eq_ok]
  constructor
  · rintro ⟨s, hs, hd⟩
    rw [hs, finish_eq_ok hd]
  · intro h
    exact ⟨_, h, rfl⟩

theorem read_eq_error (h : Description.read limit text = .error e) :
    after limit text = .error e ∨ ∃ s, after limit text = .ok s ∧ s.finish = .error e := by
  rw [read_eq_scanner_read, read] at h
  rcases hs : after limit text with e' | s <;> rw [hs] at h
  · cases h
    exact .inl rfl
  · exact .inr ⟨s, rfl, h⟩

theorem read_of_after_error (h : after limit text = .error e) :
    Description.read limit text = .error e := by
  rw [read_eq_scanner_read, read, h]
  rfl

theorem read_of_after (h : after limit text = .ok s) :
    Description.read limit text = s.finish := by
  rw [read_eq_scanner_read, read, h]
  rfl

end Texts

end MagicCircle.Description.Scanner
