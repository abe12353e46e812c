import MagicCircle.Description.Spacing
import MagicCircle.Proofs.Description.Limit

/-!
# Separators between tokens

Separators that are put in between two tokens of a group change nothing but the places of what comes
after them (`read_separators`).

The scanner keeps places only to name them in faults. So it comes to the same from a state and from
the state with its places moved (`State.step_moved`, `readOn_moved`), and it does not matter to it
whether a name has ended or a separator has come after it (`readOn_of_inside`).
-/

namespace MagicCircle.Description

open Text

namespace Scanner

open StackMachine (OpenGroup)

/-- The group where places have moved. -/
def movedGroup (f : Nat → Nat) (g : OpenGroup) : OpenGroup := { g with start := f g.start }

/-- The state where places have moved. -/
def State.moved (f : Nat → Nat) : State → State
  | start => start
  | body g outer => body (movedGroup f g) (outer.map (movedGroup f))
  | word g outer name => word (movedGroup f g) (outer.map (movedGroup f)) name
  | mark around opened chars => mark (around.map (movedGroup f)) (f opened) chars
  | done d => done d

/-- What the scanner comes to where places have moved. -/
def moved (f : Nat → Nat) : Except ReadError State → Except ReadError State
  | .ok s => .ok (s.moved f)
  | .error e => .error (e.mapOffset f)

/-- A mark that the state is in was opened at `n` or later. -/
def State.MarkFrom (n : Nat) : State → Prop
  | mark _ opened _ => n ≤ opened
  | _ => True

variable {limit n k o : Nat} {c : Char} {s s' : State} {g : OpenGroup} {b : Bracket}
  {outer around : List OpenGroup} {u v w : List Char} {f : Nat → Nat}

section Moved

theorem openGroup_moved (f : Nat → Nat) (around : List OpenGroup) (b : Bracket) (o : Nat) :
    openGroup limit (around.map (movedGroup f)) b (f o) = moved f (openGroup limit around b o) := by
  unfold openGroup
  rw [List.length_map]
  split_ifs
  · rfl
  · rcases b with _ | _ | _ <;> rfl

theorem closeGroup_moved (f : Nat → Nat) (g : OpenGroup) (outer : List OpenGroup) :
    closeGroup (movedGroup f g) (outer.map (movedGroup f)) = moved f (closeGroup g outer) := by
  have hgroup : Diagram.group (movedGroup f g).shape (movedGroup f g).components =
      Diagram.group g.shape g.components := rfl
  simp only [closeGroup, OpenGroup.close, hgroup]
  rcases Diagram.group g.shape g.components with e | d
  · rfl
  · rcases outer with _ | ⟨g', outer⟩ <;> rfl

theorem bodyStep_moved (f : Nat → Nat) (g : OpenGroup) (outer : List OpenGroup) (o : Nat)
    (c : Char) :
    bodyStep limit (movedGroup f g) (outer.map (movedGroup f)) (f o) c =
      moved f (bodyStep limit g outer o c) := by
  have hbracket : (movedGroup f g).bracket = g.bracket := rfl
  simp only [bodyStep, hbracket]
  split_ifs
  · rfl
  · exact closeGroup_moved f g outer
  · rfl
  · rfl
  all_goals
    rcases Bracket.ofOpening? c with _ | b
    · rfl
    · exact openGroup_moved f (g :: outer) b o

theorem markStep_moved {opened : Nat} (hf : f (opened + 1) = f opened + 1)
    (around : List OpenGroup) (chars : List Char) (c : Char) :
    markStep (around.map (movedGroup f)) (f opened) chars c =
      moved f (markStep around opened chars c) := by
  unfold markStep
  rw [← hf]
  split_ifs
  · rfl
  · rcases Triangle.ofMark? chars with _ | t <;> rfl
  · rfl

-- From `n` on, all places move by the same number of bytes.
variable (hf : ∀ o, n ≤ o → f o = o + k)
include hf

theorem succ_moved (ho : n ≤ o) : f (o + 1) = f o + 1 := by
  rw [hf o ho, hf (o + 1) (Nat.le_succ_of_le ho), Nat.add_right_comm]

theorem State.step_moved (o : Nat) (c : Char) : ∀ s : State, s.MarkFrom n →
    (s.moved f).step limit (f o) c = Scanner.moved f (s.step limit o c)
  | start, _ => by
    simp only [State.moved, step]
    split_ifs
    · rfl
    · exact openGroup_moved f [] .round o
    · rfl
  | body g outer, _ => bodyStep_moved f g outer o c
  | word g outer name, _ => by
    simp only [State.moved, step]
    split_ifs
    · rfl
    · exact bodyStep_moved f (g.push (.rune (String.ofList name))) outer o c
  | mark around opened chars, h => markStep_moved (succ_moved hf h) around chars c
  | done d, _ => by
    simp only [State.moved, step]
    split_ifs <;> rfl

theorem finish_moved (hs : s.MarkFrom n) :
    (s.moved f).finish = s.finish.mapError (ReadError.mapOffset f) := by
  rcases s with _ | _ | _ | ⟨around, opened, chars⟩ | _
  case mark =>
    have hopened : f (opened + 1) = f opened + 1 := succ_moved hf hs
    simp only [State.moved, State.finish, ← hopened]
    rfl
  all_goals rfl

end Moved

theorem markFrom_openGroup (ho : n ≤ o) (h : openGroup limit around b o = .ok s) :
    s.MarkFrom n := by
  unfold openGroup at h
  split at h
  · cases h
  · cases b <;> cases h
    · trivial
    · trivial
    · exact ho

theorem markFrom_closeGroup (h : closeGroup g outer = .ok s) : s.MarkFrom n := by
  unfold closeGroup at h
  split at h
  · cases h
  · rcases outer with _ | ⟨g', outer⟩ <;> cases h <;> trivial

theorem Moves.markFrom (h : Moves limit o c s s') (ho : n ≤ o) (hs : s.MarkFrom n) :
    s'.MarkFrom n := by
  cases h with
  | opening _ _ hopen => exact markFrom_openGroup ho hopen
  | closing _ hclose => exact markFrom_closeGroup hclose
  | mark => exact hs
  | _ => trivial

/-- The rest of a text is read the same where places have moved. -/
theorem readOn_moved (hf : ∀ o, n ≤ o → f o = o + k) :
    ∀ (cs : List Char) (o : Nat) (s : State), n ≤ o → s.MarkFrom n →
      readOn limit (s.moved f) ⟨o + k, cs⟩ =
        (readOn limit s ⟨o, cs⟩).mapError (ReadError.mapOffset f)
  | [], _, _, _, hs => finish_moved hf hs
  | c :: cs, o, s, ho, hs => by
    have hstep : (s.moved f).step limit (f o) c = moved f (s.step limit o c) :=
      State.step_moved hf o c s hs
    rw [hf o ho] at hstep
    rw [readOn_cons, readOn_cons, hstep]
    rcases hr : s.step limit o c with e | s'
    · rfl
    · have ih := readOn_moved hf cs (o + c.utf8Size) s' (Nat.le_add_right_of_le ho)
        ((moves_of_step hr).markFrom ho hs)
      rwa [Nat.add_right_comm] at ih

/-! ### The state between two tokens -/

theorem openGroup_ne_word {name : List Char} :
    openGroup limit around b o ≠ .ok (.word g outer name) := by
  unfold openGroup
  split_ifs
  · nofun
  · rcases b with _ | _ | _ <;> nofun

theorem closeGroup_ne_word {g' : OpenGroup} {outer' : List OpenGroup} {name : List Char} :
    closeGroup g' outer' ≠ .ok (.word g outer name) := by
  unfold closeGroup
  rcases g'.close with e | d
  · nofun
  · rcases outer' with _ | ⟨g'', outer'⟩ <;> nofun

theorem getLast?_of_word {name : List Char} (h : after limit u = .ok (.word g outer name)) :
    ∃ a ∈ u.getLast?, isWordChar a = true := by
  induction u using List.reverseRecOn with
  | nil => cases h
  | append_singleton u c _ =>
    rw [after_concat] at h
    obtain ⟨s, -, hs⟩ := bind_eq_ok.1 h
    refine ⟨c, List.getLast?_concat, ?_⟩
    cases moves_of_step hs with
    | opening _ _ hopen => exact absurd hopen openGroup_ne_word
    | closing _ hclose => exact absurd hclose closeGroup_ne_word
    | name _ _ hc => exact hc
    | word _ _ _ hc => exact hc

/-- Between tokens, it does not matter whether the name before has been ended. -/
theorem readOn_of_inside (h : s.Inside g outer)
    (hs : ∀ c ∈ u.head?, isWordChar c = true → s = .body g outer) :
    readOn limit s ⟨o, u⟩ = readOn limit (.body g outer) ⟨o, u⟩ := by
  rcases h with _ | ⟨g, outer, name⟩
  · rfl
  · rcases u with _ | ⟨c, u⟩
    · rfl
    · have hc : isWordChar c = false := by
        by_contra hc
        cases hs c rfl (by simpa using hc)
      simp only [readOn_cons, State.step, hc, Bool.false_eq_true, if_false]

/-- What comes after a text that ends inside a group is read from between its tokens. -/
theorem read_append_of_inside (hs : after limit u = .ok s) (h : s.Inside g outer)
    (huv : Unjoined u v) :
    Description.read limit (u ++ v) = readOn limit (.body g outer) ⟨byteCount u, v⟩ := by
  have hread : Description.read limit (u ++ v) = readOn limit s ⟨byteCount u, v⟩ := by
    rw [read_eq_scanner_read, read, after_append, hs]
    rfl
  rw [hread]
  refine readOn_of_inside h fun c hc hword => ?_
  rcases h with _ | ⟨g, outer, name⟩
  · rfl
  · obtain ⟨a, ha, hlast⟩ := getLast?_of_word hs
    exact absurd ⟨hlast, hword⟩ (huv a ha c hc)

theorem readOn_separators (hv : ∀ c ∈ v, isSeparator c = true) :
    readOn limit (.body g outer) ⟨o, v ++ w⟩ =
      readOn limit (.body g outer) ⟨o + byteCount v, w⟩ := by
  have hstay : ∀ (w : List Char) c o, isSeparator c = true →
      (State.body g outer).step limit o c = .ok (.body g outer) := fun _ c o hc => if_pos hc
  have hscan := State.scan_run hstay v [] o hv
  rw [readOn, State.scan_append, hscan]
  rfl

/-- The groups of a state were opened in the text so far, so they do not move when something is put
in after it. -/
theorem moved_of_after (hs : after limit u = .ok s) (h : s.Inside g outer) :
    (State.body g outer).moved (movedFrom (byteCount u) k) = .body g outer := by
  have hgroup : ∀ g' ∈ g :: outer, movedGroup (movedFrom (byteCount u) k) g' = g' := by
    intro g' hg'
    have hmem : delimiter g' ∈ unmatched u := by
      rw [unmatched_of_after hs, h.delimiters_eq, ← List.map_cons]
      exact List.mem_map_of_mem hg'
    obtain ⟨u', v', rfl, hstart⟩ := mem_unmatched hmem
    have hpos := (delimiter g').symbol.utf8Size_pos
    change byteCount u' = g'.start at hstart
    rw [movedGroup, movedFrom, byteCount_append, byteCount_cons, if_neg (by omega)]
  have houter : outer.map (movedGroup (movedFrom (byteCount u) k)) = outer :=
    (List.map_congr_left fun g' hg' => hgroup g' (List.mem_cons_of_mem g hg')).trans
      outer.map_id
  rw [State.moved, hgroup g List.mem_cons_self, houter]

end Scanner

variable {limit : Nat} {u v w : List Char}

theorem Unjoined.separators (hv : ∀ c ∈ v, isSeparator c = true) (h : Unjoined u w) :
    Unjoined u (v ++ w) := by
  rcases v with _ | ⟨c, v⟩
  · exact h
  · rintro a ha b hb ⟨-, hword⟩
    obtain rfl : c = b := Option.some.inj hb
    have hsep := hv c List.mem_cons_self
    rw [isSeparator_of_isWordChar hword] at hsep
    cases hsep

/-- Inside a group, any separators may stand between two tokens, and none if the tokens are not both
words. Whatever they are, the text is read as the same diagram or has the same fault. Only the places
after the separators move. -/
theorem read_separators (hu : EndsInGroup limit u) (huw : Unjoined u w)
    (hv : ∀ c ∈ v, isSeparator c = true) :
    read limit (u ++ v ++ w) =
      (read limit (u ++ w)).mapError
        (ReadError.mapOffset (movedFrom (byteCount u) (byteCount v))) := by
  obtain ⟨s, g, outer, hs, hin⟩ := Scanner.endsInGroup_iff.1 hu
  have hf : ∀ o, byteCount u ≤ o →
      movedFrom (byteCount u) (byteCount v) o = o + byteCount v := fun o ho => if_pos ho
  rw [List.append_assoc, Scanner.read_append_of_inside hs hin (huw.separators hv),
    Scanner.readOn_separators hv, Scanner.read_append_of_inside hs hin huw,
    ← Scanner.readOn_moved hf w _ (.body g outer) le_rfl trivial, Scanner.moved_of_after hs hin]

/-- A slash and a blank before a bracket that does not match: the fault moves by two bytes. -/
theorem read_separators_mismatch :
    EndsInGroup 4 ['(', 'a'] ∧ Unjoined ['(', 'a'] [']'] ∧
      (∀ c ∈ ['/', ' '], isSeparator c = true) ∧
      read 4 ['(', 'a', ']'] = .error (.fault (.mismatchedClose ')' ']' 2)) ∧
      read 4 ['(', 'a', '/', ' ', ']'] = .error (.fault (.mismatchedClose ')' ']' 4)) := by
  have hends : EndsInGroup 4 ['(', 'a'] := ⟨'(', 0, (read_eq_scanner_read ..).trans rfl⟩
  have hunjoined : Unjoined ['(', 'a'] [']'] := by
    rintro a - _ ⟨⟩ ⟨-, hword⟩
    cases hword
  have hread : read 4 ['(', 'a', ']'] = .error (.fault (.mismatchedClose ')' ']' 2)) :=
    (read_eq_scanner_read ..).trans rfl
  have hseparators : ∀ c ∈ ['/', ' '], isSeparator c = true := by simp [isSeparator, isSpace]
  have hmoved : read 4 ['(', 'a', '/', ' ', ']'] = (read 4 ['(', 'a', ']']).mapError _ :=
    read_separators hends hunjoined hseparators
  rw [hread] at hmoved
  exact ⟨hends, hunjoined, hseparators, hread, hmoved⟩

end MagicCircle.Description
