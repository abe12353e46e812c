import MagicCircle.Description.StackMachine
import MagicCircle.Proofs.Description.Reading

/-!
# The reader and the stack machine

On the components of its innermost group the machine does what `bodyAt` does (`run_eq_bodyAt`),
whatever groups are open around it: a bracket that opens takes both into the group, and the bracket
that closes it brings both back with the same component. So the two read every text alike, faults
included (`read_eq_stackMachine_read`).
-/

namespace MagicCircle.Description.StackMachine

open Text (Tail)

/-- Goes on after a group is complete: it becomes a component of the group around it. -/
def resume (limit : Nat) (outer : List OpenGroup) (d : Diagram) (t : Tail) :
    Except ReadError (Diagram × Tail) :=
  match outer with
  | [] => .ok (d, t)
  | g :: outer => run limit ⟨g.push d, outer, t⟩

/-- The group with more components. -/
def OpenGroup.pushAll (g : OpenGroup) (ds : List Diagram) : OpenGroup :=
  { g with components := g.components ++ ds }

theorem pushAll_nil (g : OpenGroup) : g.pushAll [] = g := by
  simp [OpenGroup.pushAll]

theorem pushAll_push (g : OpenGroup) (d : Diagram) (ds : List Diagram) :
    (g.push d).pushAll ds = g.pushAll (d :: ds) := by
  simp [OpenGroup.pushAll, OpenGroup.push]

section Steps

variable {limit start : Nat} {g : OpenGroup} {outer around : List OpenGroup} {b : Bracket}
  {t u : Tail}

theorem openGroup_eq :
    openGroup limit around b start t =
      if limit < around.length + 1 then .error (.fault (.tooDeep limit start))
      else headAt b t >>= fun p => .ok ⟨⟨p.1, b, start, []⟩, around, p.2⟩ := by
  unfold openGroup
  simp only [Nat.lt_succ_iff]
  split_ifs
  · rfl
  · unfold headAt
    rcases groupShape b t with f | ⟨shape, r⟩ <;> rfl

/-- One step of the machine, at the tail `u` where the separators have been skipped. -/
theorem run_eq (hu : t.skip isSeparator = u) :
    run limit ⟨g, outer, t⟩ =
      match u.chars with
      | [] => .error (.fault (.unterminated g.bracket.opening g.start))
      | c :: cs =>
        if isClosing c then
          closeAt g.bracket g.start g.shape g.components u >>= fun p => resume limit outer p.1 p.2
        else if c = definitionMark then .error (.fault (.definitionsUnsupported u.offset))
        else match Bracket.ofOpening? c with
          | some b =>
            openGroup limit (g :: outer) b u.offset ⟨u.offset + 1, cs⟩ >>= run limit
          | none =>
            if isWordChar c then
              run limit ⟨g.push (.rune (String.ofList (u.run isWordChar))), outer,
                u.skip isWordChar⟩
            else .error (.fault (.unexpectedChar c u.offset)) := by
  have hrun : run limit ⟨g, outer, t⟩ = step limit ⟨g, outer, t⟩ >>= fun p =>
      match p with
      | .complete d r => .ok (d, r)
      | .going s => run limit s := by
    rw [run]
    split <;> rename_i hs <;> rw [hs] <;> rfl
  rw [hrun, step, hu]
  rcases u with ⟨o, _ | ⟨c, cs⟩⟩
  · rfl
  simp only []
  by_cases hcl : isClosing c
  · simp only [if_pos hcl, closeAt]
    by_cases hc : c = g.bracket.closing
    · simp only [if_pos hc, closeGroup, OpenGroup.close]
      rcases Diagram.group g.shape g.components with e | d
      · rfl
      · rcases outer with _ | ⟨g', outer⟩ <;> rfl
    · simp only [if_neg hc]
      rfl
  simp only [if_neg hcl]
  by_cases hdm : c = definitionMark
  · simp only [if_pos hdm]
    rfl
  simp only [if_neg hdm]
  rcases Bracket.ofOpening? c with _ | b
  · by_cases hw : isWordChar c
    · simp only [if_pos hw]
      rfl
    · simp only [if_neg hw]
      rfl
  · simp only []
    rcases openGroup limit (g :: outer) b o ⟨o + 1, cs⟩ with e | s <;> rfl

theorem run_skip : run limit ⟨g, outer, t.skip isSeparator⟩ = run limit ⟨g, outer, t⟩ := by
  rw [run_eq rfl, run_eq (t := t) rfl, Tail.skip_skip]

/-- Where the components of a group end, the machine closes it. -/
theorem run_of_stops (h : Stops t) :
    run limit ⟨g, outer, t⟩ =
      closeAt g.bracket g.start g.shape g.components t >>= fun p => resume limit outer p.1 p.2 := by
  rw [run_eq h.skip_eq]
  rcases t with ⟨o, _ | ⟨c, cs⟩⟩
  · rfl
  · simp only [h c rfl, if_true]

end Steps

/-- From the bracket that opens a group to the one that closes it the machine does what `groupAt`
does, if it does so between the two. -/
theorem openGroup_run {limit start : Nat} {around : List OpenGroup} {b : Bracket} {t : Tail}
    (ih : ∀ g u, u.length ≤ t.length → run limit ⟨g, around, u⟩ =
      bodyAt limit (around.length + 1) u >>= fun q => run limit ⟨g.pushAll q.1, around, q.2⟩) :
    openGroup limit around b start t >>= run limit =
      groupAt limit (around.length + 1) b start t >>= fun p => resume limit around p.1 p.2 := by
  rw [openGroup_eq, groupAt_eq]
  split_ifs
  · rfl
  simp only [bind_assoc]
  refine bind_congr_of_ok ?_
  rintro ⟨shape, u⟩ hu
  change run limit ⟨⟨shape, b, start, []⟩, around, u⟩ = _
  rw [ih _ u (length_headAt_le hu)]
  refine bind_congr_of_ok ?_
  rintro ⟨ds, r⟩ hr
  exact run_of_stops (stops_of_bodyAt hr)

/-- The machine reads the components of the innermost group as `bodyAt` does. -/
theorem run_eq_bodyAt (limit : Nat) (g : OpenGroup) (outer : List OpenGroup) (t : Tail) :
    run limit ⟨g, outer, t⟩ =
      bodyAt limit (outer.length + 1) t >>= fun q => run limit ⟨g.pushAll q.1, outer, q.2⟩ := by
  generalize hu : t.skip isSeparator = u
  rw [bodyAt_eq hu]
  rcases hc : u.chars with _ | ⟨c, cs⟩ <;> simp only []
  · rw [← run_skip, hu]
    exact congrArg (fun g => run limit ⟨g, outer, u⟩) (pushAll_nil g).symm
  by_cases hcl : isClosing c
  · rw [if_pos hcl, ← run_skip, hu]
    exact congrArg (fun g => run limit ⟨g, outer, u⟩) (pushAll_nil g).symm
  rw [run_eq hu]
  simp only [hc, if_neg hcl]
  by_cases hdm : c = definitionMark
  · simp only [if_pos hdm]
    rfl
  simp only [if_neg hdm]
  subst hu
  rcases Bracket.ofOpening? c with _ | b
  · by_cases hw : isWordChar c
    · have hlt := length_lt_of_word hc hw
      simp only [if_pos hw, bind_assoc]
      rw [run_eq_bodyAt]
      refine bind_congr_of_ok ?_
      rintro ⟨ds, r⟩ hr
      exact congrArg (fun g => run limit ⟨g, outer, r⟩) (pushAll_push _ _ _)
    · simp only [if_neg hw]
      rfl
  · have hlt := length_lt_of_opening (o := (t.skip isSeparator).offset + 1) hc
    simp only []
    rw [openGroup_run (fun g u hle => by
      have hltu := Nat.lt_of_le_of_lt hle hlt
      exact run_eq_bodyAt limit g _ u)]
    simp only [bind_assoc]
    refine bind_congr_of_ok ?_
    rintro ⟨d, v⟩ hv
    have hltv := Nat.lt_trans (length_groupAt_lt hv) hlt
    simp only [resume]
    rw [run_eq_bodyAt]
    refine bind_congr_of_ok ?_
    rintro ⟨ds, r⟩ hr
    exact congrArg (fun g => run limit ⟨g, outer, r⟩) (pushAll_push _ _ _)
termination_by t.length

theorem openGroup_run_nil {limit start : Nat} {b : Bracket} {t : Tail} :
    openGroup limit [] b start t >>= run limit = groupAt limit 1 b start t := by
  rw [openGroup_run fun g u _ => run_eq_bodyAt limit g [] u]
  exact bind_pure (groupAt limit 1 b start t)

/-- The machine, in the terms that `read_eq` has for the reader. -/
theorem read_of_start {limit : Nat} {text : List Char} {t : Tail}
    (ht : (Tail.ofChars text).skip isSpace = t) :
    read limit text =
      match t.chars with
      | [] => .error (.fault .noDescription)
      | c :: cs =>
        if c = Bracket.round.opening then
          (openGroup limit [] .round t.offset ⟨t.offset + 1, cs⟩ >>= run limit) >>= fun p =>
            endAt p.1 p.2
        else .error (.fault (.malformed c t.offset)) := by
  subst ht
  simp only [read]
  rcases ((Tail.ofChars text).skip isSpace).chars with _ | ⟨c, cs⟩
  · rfl
  by_cases hc : c = Bracket.round.opening
  · simp only [if_pos hc]
    rcases openGroup limit [] .round _ _ with e | s
    · rfl
    simp only [bind, Except.bind]
    rcases run limit s with e | ⟨d, r⟩ <;> rfl
  · simp only [if_neg hc]

end MagicCircle.Description.StackMachine

namespace MagicCircle.Description

/-- Reading a text and running the machine on it come to the same: the same diagram, or the same
fault at the same place. -/
theorem read_eq_stackMachine_read (limit : Nat) (text : List Char) :
    read limit text = StackMachine.read limit text := by
  generalize ht : (Text.Tail.ofChars text).skip isSpace = t
  rw [read_eq ht, StackMachine.read_of_start ht]
  rcases t.chars with _ | ⟨c, cs⟩
  · rfl
  · dsimp only
    rw [StackMachine.openGroup_run_nil]

end MagicCircle.Description
