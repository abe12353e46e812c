import MagicCircle.Proofs.Drawing.Failure
import MagicCircle.Proofs.Drawing.Scopes
import MagicCircle.Proofs.Drawing.Script

/-!
# The first failure ends a drawing

`Diagram.renderOn_stops_at_first_failure`: a drawing fails exactly when one of its steps does, at
the first of them, and its log is then what a drawing without failures has logged up to there, with
the restores that leave the frames open at that point.

`Draw.perform_of_noFailure` and `Draw.perform_of_failure` say the same of any script, by induction
along it; a drawing performs its script (`Diagram.renderOn_eq_perform`).
-/

namespace MagicCircle

variable {α σ : Type} [Scalar α] {answer : String → Except GlyphError Glyph} {c : Canvas α}

section Script

variable {source : Source σ}

/-- A script of which nothing fails is performed to its end. -/
theorem Draw.perform_of_noFailure (hs : source.Answers answer) :
    ∀ (as : List (Action α)) {n taken : Nat} {c' : Canvas α} {s : σ}, c.After taken c' →
      NoFailure answer c taken (as.flatMap Action.events) →
        (perform source n as).exec c' s = (.ok (), as.foldl (Action.apply (glyphOf answer)) c',
          source.asked (lookups (as.flatMap Action.events)) s)
  | [], _, _, _, _, _, _ => rfl
  | a :: as, _, _, _, _, hc, h => by
    rw [List.flatMap_cons, noFailure_append] at h
    rw [perform, exec_bind_ok (exec_leaving_ok (Action.exec_draw_of_noFailure hs hc h.1)),
      perform_of_noFailure hs as (hc.apply _ a) h.2, List.flatMap_cons, lookups_append,
      Source.asked, Source.asked, Source.asked, List.foldl_append]
    rfl

/-- A script is performed up to the action that the first failing step belongs to. -/
theorem Draw.perform_of_failure (hs : source.Answers answer) {step : Event}
    {after : List Event} {e : DrawError α} :
    ∀ (as : List (Action α)) {n taken : Nat} {c' : Canvas α} {s : σ} {before : List Event},
      c.After taken c' → as.flatMap Action.events = before ++ step :: after →
      NoFailure answer c taken before →
      step.failure? answer c (taken + strokeCount before) = some e →
        ∃ done a rest within later, as = done ++ a :: rest ∧
          before = done.flatMap Action.events ++ within ∧ a.events = within ++ step :: later ∧
          (perform source n as).exec c' s =
            (.error e, (done.foldl (Action.apply (glyphOf answer)) c').restores
              (done.foldl Action.depth n), source.asked (lookups (before ++ [step])) s)
  | [], _, _, _, _, before, _, h, _, _ => by simp at h
  | a :: as, n, taken, c', s, before, hc, h, hb, he => by
    -- The step belongs to a later action, or to this one.
    obtain ⟨t, rfl, ht⟩ | ⟨t, ha⟩ :
        (∃ t, before = a.events ++ t ∧ as.flatMap Action.events = t ++ step :: after) ∨
          ∃ t, a.events = before ++ step :: t := by
      rw [List.flatMap_cons] at h
      obtain h | ⟨_ | ⟨x, t⟩, ha, hstep⟩ := List.append_eq_append_iff.1 h
      · exact .inl h
      · exact .inl ⟨[], by simpa using ha.symm, hstep.symm⟩
      · obtain ⟨rfl, -⟩ := List.cons.inj hstep
        exact .inr ⟨t, ha⟩
    · rw [noFailure_append] at hb
      rw [strokeCount_append, ← Nat.add_assoc] at he
      obtain ⟨done, b, rest, within, later, rfl, rfl, hb', hexec⟩ :=
        perform_of_failure hs as (hc.apply (glyphOf answer) a) ht hb.2 he
      refine ⟨a :: done, b, rest, within, later, rfl, ?_, hb', ?_⟩
      · rw [List.flatMap_cons, List.append_assoc]
      · rw [perform, exec_bind_ok (exec_leaving_ok (Action.exec_draw_of_noFailure hs hc hb.1)),
          hexec, List.append_assoc a.events, lookups_append a.events]
        simp only [Source.asked, List.foldl_append, List.foldl_cons]
    · refine ⟨[], a, as, before, t, rfl, rfl, ha, ?_⟩
      rw [perform, exec_bind_error
        (exec_leaving_error (Action.exec_draw_of_failure hs hc ha hb he))]
      rfl

end Script

omit [Scalar α] in
theorem Canvas.restores_ops : ∀ (n : Nat) (c : Canvas α),
    (c.restores n).ops.toList = c.ops.toList ++ List.replicate n .restore
  | 0, c => (List.append_nil _).symm
  | n + 1, c => by
    have hops : c.restore.ops.toList = c.ops.toList ++ [.restore] := by
      rcases c with ⟨_, _, _ | _, _, _⟩ <;> simp [restore, record]
    rw [restores, restores_ops n, hops, List.append_assoc]
    rfl

namespace Diagram

variable (d : Diagram) (side : α)

theorem flatMap_events_framed :
    (Action.framed (d.script side)).flatMap Action.events = d.events := by
  simp [Action.framed, Action.events, flatMap_events_script]

/-- With all glyphs at hand and no limit, a drawing performs all of its script. -/
theorem perform_script (glyph : String → Glyph) (c : Canvas α) :
    (Draw.perform (Source.ofGlyphs glyph) 0 (Action.framed (d.script side))).exec
      { c with limit := none } () =
        (.ok (), (Action.framed (d.script side)).foldl (Action.apply glyph)
          { c with limit := none }, ()) := by
  have hs : (Source.ofGlyphs glyph : Source Unit).Answers fun name => .ok (glyph name) :=
    fun _ _ => rfl
  have hleft (k : Nat) : ({ c with limit := none } : Canvas α).left ≠ some k := nofun
  have hnone := (noFailure_iff ((Action.framed (d.script side)).flatMap Action.events) 0
    fun k h => (hleft k h).elim).2 ⟨fun name _ => ⟨glyph name, rfl⟩, fun k h => (hleft k h).elim⟩
  exact Draw.perform_of_noFailure hs _ ⟨rfl, rfl⟩ hnone

theorem balanced_ops (glyph : String → Glyph) (c : Canvas α) :
    Balanced (Action.ops glyph c (Action.framed (d.script side))) := by
  let source : Source Unit := Source.ofGlyphs glyph
  obtain ⟨ops, hops, hb⟩ :=
    ((draw_keeps source d side).exec_inOwnFrame { c with limit := none } ()).1.ops
  have hf := (draw_follows source d side).framed.leaving_eq 0
  rw [Draw.leaving_zero] at hf
  rw [hf, perform_script, Action.foldl_apply_ops] at hops
  have hc : c.frames = ({ c with limit := none } : Canvas α).frames := rfl
  rwa [Action.ops_congr _ (fun _ _ => rfl) hc, List.append_cancel_left hops]

/-- The frames open at a point of a script are the ones to be restored in the log up to there. -/
theorem openFrames_of_done {done rest : List (Action α)}
    (h : Action.framed (d.script side) = done ++ rest) (glyph : String → Glyph) (c : Canvas α) :
    done.foldl Action.depth 0 = openFrames (Action.ops glyph c done) := by
  have hb := balanced_ops d side glyph c
  rw [h, Action.ops_append] at hb
  rw [← Action.foldl_depth_ops glyph done c 0]
  refine foldl_depth_eq_openFrames fun k => ?_
  have hk := hb.restores_le (min k (Action.ops glyph c done).length)
  rwa [List.take_append_of_le_length (Nat.min_le_right ..), ← List.take_eq_take_min] at hk

variable {source : Source σ} {s : σ} {d} {side}

theorem renderOn_eq_perform (hu : Scalar.usable side = true) :
    d.renderOn source side c s =
      (Draw.perform source 0 (Action.framed (d.script side))).exec c s := by
  rw [← render_eq_perform source d hu]
  rfl

/-- Where one of its steps is the first to fail, a drawing stops at the action of that step. -/
theorem renderOn_of_firstFailure (hs : source.Answers answer) (hu : Scalar.usable side = true)
    {before after : List Event} {step : Event} {e : DrawError α}
    (hes : d.events = before ++ step :: after) (hf : FirstFailure answer c before step e) :
    ∃ done a rest within later, Action.framed (d.script side) = done ++ a :: rest ∧
      before = done.flatMap Action.events ++ within ∧ a.events = within ++ step :: later ∧
      d.renderOn source side c s =
        (.error e, (done.foldl (Action.apply (glyphOf answer)) c).restores
          (done.foldl Action.depth 0), source.asked (lookups (before ++ [step])) s) := by
  rw [renderOn_eq_perform hu]
  rw [← flatMap_events_framed d side] at hes
  exact Draw.perform_of_failure hs _ ⟨rfl, rfl⟩ hes hf.passed (by simpa using hf.fails)

theorem renderOn_ok_iff (hs : source.Answers answer) (hu : Scalar.usable side = true) :
    (d.renderOn source side c s).1 = .ok () ↔ NoFailure answer c 0 d.events := by
  refine ⟨fun h => ?_, fun h => ?_⟩
  · obtain h' | ⟨before, step, after, e, hes, hf⟩ := noFailure_or_firstFailure answer c d.events
    · exact h'
    · obtain ⟨_, _, _, _, _, _, _, _, hdrawn⟩ := renderOn_of_firstFailure hs hu hes hf (s := s)
      rw [hdrawn] at h
      cases h
  · rw [← flatMap_events_framed d side] at h
    rw [renderOn_eq_perform hu, Draw.perform_of_noFailure hs _ ⟨rfl, rfl⟩ h]

/-- The part of a script that was performed has the same log on the canvas as without failures. -/
theorem log_of_done {done rest : List (Action α)} {a : Action α} {within later : List Event}
    {step : Event} (h : Action.framed (d.script side) = done ++ a :: rest)
    (ha : a.events = within ++ step :: later) {glyph : String → Glyph}
    (hg : ∀ name ∈ lookups (done.flatMap Action.events), answer name = .ok (glyph name)) :
    ∃ ops m log, Action.ops glyph { c with limit := none } (Action.framed (d.script side)) =
        ops ++ .mark m :: log ∧
      ops.countP Op.isMark = strokeCount (done.flatMap Action.events ++ within) ∧
      step.leaves glyph m = true ∧
      ((done.foldl (Action.apply (glyphOf answer)) c).restores
        (done.foldl Action.depth 0)).ops.toList =
          c.ops.toList ++ (ops ++ List.replicate (openFrames ops) .restore) := by
  have hops : Action.ops (glyphOf answer) c done = Action.ops glyph { c with limit := none } done :=
    Action.ops_congr done (fun name hn => by rw [glyphOf, hg name hn]) rfl
  obtain ⟨hwithin, m, hm, hl⟩ := Action.op_of_events ha glyph
    (done.foldl (Action.apply glyph) { c with limit := none })
  have hsplit := Action.ops_append glyph (a :: rest) done { c with limit := none }
  rw [← h, Action.ops, hm] at hsplit
  refine ⟨_, m, _, hsplit, ?_, hl, ?_⟩
  · rw [Action.countP_isMark_ops, strokeCount_append, hwithin, Nat.add_zero]
  · rw [Canvas.restores_ops, Action.foldl_apply_ops, hops,
      openFrames_of_done d side h glyph { c with limit := none }, List.append_assoc]

/-- A drawing succeeds if every name has a glyph and the canvas takes all strokes. Otherwise it
fails as the first of its steps that does, looks up no name after that step, and leaves in the log
what a drawing without failures would have left there before the mark of that step, with the
restores that leave the frames open at that point. -/
theorem renderOn_stops_at_first_failure (hs : source.Answers answer) (d : Diagram) {side : α}
    (hu : Scalar.usable side = true) (c : Canvas α) (s : σ) :
    let drawn := d.renderOn source side c s
    (drawn.1 = .ok () ↔ (∀ name ∈ lookups d.events, ∃ g, answer name = .ok g) ∧
        ∀ k, c.left = some k → strokeCount d.events ≤ k) ∧
      ∀ e, drawn.1 = .error e → ∃ before step after, d.events = before ++ step :: after ∧
        FirstFailure answer c before step e ∧
        drawn.2.2 = source.asked (lookups (before ++ [step])) s ∧
        ∀ glyph : String → Glyph, (∀ name ∈ lookups before, answer name = .ok (glyph name)) →
          let whole := d.renderOn (Source.ofGlyphs glyph) side { c with limit := none } ()
          ∃ ops m rest, whole.2.1.ops.toList = c.ops.toList ++ (ops ++ .mark m :: rest) ∧
            ops.countP Op.isMark = strokeCount before ∧ step.leaves glyph m = true ∧
            drawn.2.1.ops.toList =
              c.ops.toList ++ (ops ++ List.replicate (openFrames ops) .restore) := by
  intro drawn
  have hok : drawn.1 = .ok () ↔ NoFailure answer c 0 d.events := renderOn_ok_iff hs hu
  refine ⟨?_, fun e herror => ?_⟩
  · rw [hok, noFailure_iff _ _ fun _ _ => Nat.zero_le _]
    simp only [Nat.zero_add]
  obtain h | ⟨before, step, after, e', hes, hf⟩ := noFailure_or_firstFailure answer c d.events
  · rw [hok.2 h] at herror
    cases herror
  obtain ⟨done, a, rest, within, later, hdone, rfl, ha, hdrawn⟩ :=
    renderOn_of_firstFailure hs hu hes hf (s := s)
  change drawn = _ at hdrawn
  rw [hdrawn] at herror ⊢
  cases herror
  refine ⟨_, step, after, hes, hf, rfl, fun glyph hg => ?_⟩
  intro whole
  obtain ⟨ops, m, log, hwhole, hmark, hl, hlog⟩ := log_of_done (c := c) hdone ha fun name hn =>
    hg name (by rw [lookups_append]; exact List.mem_append_left _ hn)
  refine ⟨ops, m, log, ?_, hmark, hl, hlog⟩
  have hw : whole = _ := (renderOn_eq_perform hu).trans (perform_script d side glyph c)
  rw [hw, Action.foldl_apply_ops, hwhole]

/-- A missing glyph is reported even where the canvas takes no stroke. -/
theorem renderOn_missing_glyph : Scalar.usable (1 : Float) = true ∧
    ((rune "moon").renderOn (Source.ofFunction fun name => .error (.notFound name)) (1 : Float)
      (Canvas.blank (some 0)) ()).1 = .error (.leaf "moon" (.notFound "moon")) := by
  have hu : Scalar.usable (1 : Float) = true := by decide
  have hs : (Source.ofFunction fun name => .error (.notFound name) : Source Unit).Answers
      fun name => .error (.notFound name) := fun _ _ => rfl
  obtain ⟨hok, hfirst⟩ :=
    renderOn_stops_at_first_failure hs (rune "moon") hu (Canvas.blank (some 0)) ()
  refine ⟨hu, ?_⟩
  rcases hr : (renderOn _ (rune "moon") (1 : Float) (Canvas.blank (some 0)) ()).1 with e | _
  · obtain ⟨before, step, after, hes, ⟨hb, he⟩, -⟩ := hfirst e hr
    rcases before with _ | ⟨first, before⟩
    · cases hes
      exact congrArg Except.error (Option.some.inj he).symm
    · obtain ⟨rfl, -⟩ := List.cons.inj hes
      cases hb.1
  · obtain ⟨g, hg⟩ := (hok.1 hr).1 "moon" (.head _)
    cases hg

end Diagram

end MagicCircle
