import MagicCircle.Proofs.Drawing.Entries

/-!
# A drawing is the same wherever it is made

`Diagram.renderOn_anywhere`: what a drawing comes to does not depend on the frames, the saved frames
and the log of its canvas, and its log is put together from the drawings of its components.

The first is shown in two runs that keep abreast (`Canvas.Abreast`): every action does the same in
both (`Draw.abreast_draw`), so a script does (`Draw.perform_abreast`). The second needs one run
only, since the script of a component stands in that of the diagram.
-/

namespace MagicCircle

variable {α σ : Type} [Scalar α] {n n' : Nat} {c c' : Canvas α}

namespace Canvas

omit [Scalar α] in
theorem accepts_eq_left (c : Canvas α) : c.accepts = c.left.all (0 < ·) := by
  rw [accepts, left]
  rcases c.limit with _ | limit
  · rfl
  · simp only [Option.map_some, Option.all_some, Nat.sub_pos_iff_lt]

theorem stroke_eq (c : Canvas α) (m : Mark α) : c.stroke m =
    if c.accepts then .ok (c.apply (.mark m)) else .error (.ofStroke (c.strokes + 1)) := rfl

namespace Abreast

omit [Scalar α] in
theorem refl_left (h : c.left = c'.left) : Abreast c.strokes c'.strokes c c' :=
  ⟨h, 0, rfl, rfl⟩

theorem apply (h : Abreast n n' c c') {op op' : Op α} (hop : op.unplaced = op'.unplaced) :
    Abreast n n' (c.apply op) (c'.apply op') := by
  obtain ⟨k, hc, hc'⟩ := h.strokes
  have hmark : [op].countP Op.isMark = [op'].countP Op.isMark := by
    rw [List.countP_singleton, List.countP_singleton, ← op.isMark_unplaced, hop,
      op'.isMark_unplaced]
  refine ⟨by rw [left_apply, left_apply, h.left, hmark], k + [op].countP Op.isMark, ?_, ?_⟩
  · rw [strokes_apply, hc, Nat.add_assoc]
  · rw [strokes_apply, hc', Nat.add_assoc, hmark]

end Abreast

end Canvas

namespace Draw

/-- Two runs of a step come to the same: it adds one entry on both canvases or fails on both. -/
def Abreast (m : Draw α σ Unit) (n n' : Nat) (c c' : Canvas α) (s : σ) : Prop :=
  (∃ op op' t, m.exec c s = (.ok (), c.apply op, t) ∧ m.exec c' s = (.ok (), c'.apply op', t) ∧
      op.unplaced = op'.unplaced) ∨
    ∃ e e' t, m.exec c s = (.error e, c, t) ∧ m.exec c' s = (.error e', c', t) ∧
      EndAlike n n' (.error e) (.error e')

variable {s : σ}

theorem stroke_abreast {fail : Rejection → DrawError α} {k : Canvas α → Mark α}
    (hfail : ∀ j, EndAlike n n' (.error (fail (.ofStroke (n + j))))
      (.error (fail (.ofStroke (n' + j)))))
    (hk : (Op.mark (k c)).unplaced = (Op.mark (k c')).unplaced) (h : Canvas.Abreast n n' c c') :
    Abreast (stroke fail k) n n' c c' s := by
  have haccepts : c.accepts = c'.accepts := by
    rw [c.accepts_eq_left, c'.accepts_eq_left, h.left]
  unfold Abreast
  rw [exec_stroke, exec_stroke, Canvas.stroke_eq, Canvas.stroke_eq, haccepts]
  rcases c'.accepts with _ | _
  · obtain ⟨j, hc, hc'⟩ := h.strokes
    have hend := hfail (j + 1)
    rw [← Nat.add_assoc, ← Nat.add_assoc, ← hc, ← hc'] at hend
    exact .inr ⟨_, _, s, rfl, rfl, hend⟩
  · exact .inl ⟨_, _, s, rfl, rfl, hk⟩

theorem abreast_draw (source : Source σ) (a : Action α) (h : Canvas.Abreast n n' c c') :
    Abreast (a.draw source) n n' c c' s := by
  rcases a with _ | _ | ⟨x, y⟩ | radians | b | line | ⟨name, size⟩
  case save => exact .inl ⟨.save, .save, s, rfl, rfl, rfl⟩
  case restore => exact .inl ⟨.restore, .restore, s, rfl, rfl, rfl⟩
  case translate => exact .inl ⟨.translate x y, .translate x y, s, rfl, rfl, rfl⟩
  case rotate => exact .inl ⟨.rotate radians, .rotate radians, s, rfl, rfl, rfl⟩
  case border => exact stroke_abreast (k := fun _ => b.mark) .surface rfl h
  case divider => exact stroke_abreast (k := fun _ => .line line) .surface rfl h
  case rune =>
    unfold Abreast
    rcases hs : source name s with ⟨e | g, t⟩
    · have hlookup (c : Canvas α) :
          (lookup source name : Draw α σ Glyph).exec c s = (.error (.leaf name e), c, t) := by
        rw [exec_lookup, hs]
      exact .inr ⟨_, _, t, exec_bind_error (hlookup c), exec_bind_error (hlookup c'), .leaf name e⟩
    · have hlookup (c : Canvas α) :
          (lookup source name : Draw α σ Glyph).exec c s = (.ok g, c, t) := by
        rw [exec_lookup, hs]
      have hrest (c : Canvas α) : (Action.draw source (.rune name size)).exec c s = _ :=
        exec_bind_ok (hlookup c)
      rw [hrest, hrest]
      exact stroke_abreast (.glyph name) rfl h

/-- Two runs of a script that start abreast come to the same. -/
theorem perform_abreast (source : Source σ) : ∀ (as : List (Action α)) {m : Nat}
    {c c' : Canvas α} {s : σ}, Canvas.Abreast n n' c c' →
      let run := (perform source m as).exec c s
      let run' := (perform source m as).exec c' s
      EndAlike n n' run.1 run'.1 ∧ run.2.2 = run'.2.2 ∧
        ∃ log log', run.2.1.ops.toList = c.ops.toList ++ log ∧
          run'.2.1.ops.toList = c'.ops.toList ++ log' ∧ log.map Op.unplaced = log'.map Op.unplaced
  | [], _, _, _, _, _ =>
    ⟨.ok, rfl, [], [], (List.append_nil _).symm, (List.append_nil _).symm, rfl⟩
  | a :: as, m, c, c', s, h => by
    obtain ⟨op, op', t, hr, hr', hop⟩ | ⟨e, e', t, hr, hr', hend⟩ :=
      abreast_draw source a h (s := s)
    · obtain ⟨hend, hstate, log, log', hlog, hlog', heq⟩ :=
        perform_abreast source as (m := a.depth m) (s := t) (h.apply hop)
      rw [perform, exec_bind_ok (exec_leaving_ok hr), exec_bind_ok (exec_leaving_ok hr')]
      refine ⟨hend, hstate, op :: log, op' :: log', ?_, ?_, ?_⟩
      · rw [hlog, Canvas.ops_apply, Array.toList_push, List.append_assoc]
        rfl
      · rw [hlog', Canvas.ops_apply, Array.toList_push, List.append_assoc]
        rfl
      · rw [List.map_cons, List.map_cons, hop, heq]
    · rw [perform, exec_bind_error (exec_leaving_error hr), exec_bind_error (exec_leaving_error hr')]
      exact ⟨hend, rfl, _, _, Canvas.restores_ops m c, Canvas.restores_ops m c', rfl⟩

end Draw

/-! ## Components -/

theorem Shape.entries_entering (shape : Shape) (side : α) (gs : List Glyph) :
    Action.entries (shape.entering side) gs = Canvas.moves (shape.enter side) := by
  rcases shape with _ | _ | t <;> rfl

theorem Shape.entries_enteringRegion (shape : Shape) (region : Region α) (gs : List Glyph) :
    Action.entries (shape.enteringRegion region) gs =
      Canvas.moves (shape.enterRegion region) := by
  rcases shape with _ | _ | t <;> rfl

theorem Border.unplaced_mark (b : Border α) : (Op.mark b.mark).unplaced = .mark b.mark := by
  rcases b with _ | _ | _ <;> rfl

theorem Op.eq_save_of_unplaced {op : Op α} (h : op.unplaced = .save) : op = .save := by
  rcases op with _ | _ | _ | _ | ⟨_ | _ | _ | _ | _⟩ <;> cases h
  rfl

theorem Op.eq_restore_of_unplaced {op : Op α} (h : op.unplaced = .restore) : op = .restore := by
  rcases op with _ | _ | _ | _ | ⟨_ | _ | _ | _ | _⟩ <;> cases h
  rfl

/-- A log that is a frame's, without the places of glyphs, is a frame's. -/
theorem Op.framed_of_unplaced {log inner : List (Op α)}
    (h : log.map Op.unplaced = .save :: (inner ++ [.restore])) :
    ∃ log', log = .save :: (log' ++ [.restore]) ∧ log'.map Op.unplaced = inner := by
  obtain ⟨first, rest, rfl, hfirst, hrest⟩ := List.map_eq_cons_iff.1 h
  obtain ⟨log', last, rfl, hlog', hlast⟩ := List.map_eq_append_iff.1 hrest
  obtain ⟨op, rfl, hop⟩ := List.map_eq_singleton_iff.1 hlast
  exact ⟨log', by rw [eq_save_of_unplaced hfirst, eq_restore_of_unplaced hop], hlog'⟩

namespace Action

variable {gs : List Glyph}

/-- Actions that look nothing up need no glyphs. -/
theorem entries_append_right {as : List (Action α)} (h : lookups (as.flatMap events) = [])
    (bs : List (Action α)) (gs : List Glyph) :
    entries (as ++ bs) gs = entries as [] ++ entries bs gs :=
  entries_append bs gs as [] (by rw [h]; rfl)

/-- Entering a region looks nothing up. -/
theorem lookups_enteringRegion (shape : Shape) (region : Region α) (as : List (Action α)) :
    lookups ((shape.enteringRegion region ++ as).flatMap events) = lookups (as.flatMap events) := by
  rcases shape with _ | _ | t <;> rfl

omit [Scalar α] in
theorem lookups_framed (as : List (Action α)) :
    lookups ((framed as).flatMap events) = lookups (as.flatMap events) := by
  rw [framed, List.flatMap_cons, List.flatMap_append, lookups_append, lookups_append]
  exact List.append_nil _

theorem entries_region (shape : Shape) (region : Region α) {as : List (Action α)}
    (h : gs.length = (lookups (as.flatMap events)).length) :
    entries (framed (shape.enteringRegion region ++ as)) gs =
      shape.regionLog region (entries as gs) := by
  have hnone : lookups ((shape.enteringRegion region).flatMap events) = [] := by
    rcases shape with _ | _ | t <;> rfl
  rw [entries_framed _ (by rw [lookups_enteringRegion, h]), entries_append_right hnone,
    Shape.entries_enteringRegion, Shape.regionLog]

theorem entries_shape (shape : Shape) (side : α) (b : Border α) (bs : List (Action α)) :
    entries (shape.entering side ++ .border b :: bs) gs =
      Canvas.moves (shape.enter side) ++ .mark b.mark :: entries bs gs := by
  have hnone : lookups ((shape.entering side).flatMap events) = [] := by
    rcases shape with _ | _ | t <;> rfl
  rw [entries_append_right hnone, Shape.entries_entering, ← b.unplaced_mark]
  rfl

end Action

namespace Diagram

variable {source : Source σ} {s : σ}

theorem length_of_answers {d : Diagram} {gs : List Glyph}
    (h : source.answers d.leaves s = gs.map .ok) (side : α) :
    gs.length = (lookups ((d.script side).flatMap Action.events)).length := by
  rw [flatMap_events_script, lookups_events, ← source.length_answers d.leaves s, h, List.length_map]

/-- Drawn by itself, a diagram leaves the entries of its script. -/
theorem leaves_entries {d : Diagram} {gs : List Glyph}
    (h : source.answers d.leaves s = gs.map .ok) (size : α) :
    d.Leaves size (source.answers d.leaves s) (Action.entries (d.script size) gs) := by
  intro hu τ source' t c hs hroom alone
  rw [h, ← lookups_events, ← flatMap_events_framed d size] at hs
  rw [← flatMap_events_framed d size] at hroom
  obtain ⟨c', ops, hexec, hops, hentries⟩ := Draw.perform_entries _ (n := 0) hs hroom
  have halone : alone = _ := (renderOn_eq_perform hu).trans hexec
  rw [Action.entries_framed _ (length_of_answers h size)] at hentries
  obtain ⟨log, rfl, hlog⟩ := Op.framed_of_unplaced hentries
  rw [halone]
  exact ⟨rfl, log, hops, hlog⟩

theorem composed_entries : ∀ (d : Diagram) (side : α) {s : σ} {gs : List Glyph},
    source.answers d.leaves s = gs.map .ok →
      d.Composed source side s (Action.entries (d.script side) gs)
  | rune name, side, s, gs, h => by
    obtain ⟨g, rfl, hg⟩ := List.map_eq_singleton_iff.1 h.symm
    exact ⟨g, hg.symm, rfl⟩
  | solo shape inner, side, s, gs, h => by
    let size := (shape.solo side).region.size
    have hinner : source.answers inner.leaves s = gs.map .ok := h
    refine ⟨Action.entries (inner.script size) gs, ?_, leaves_entries hinner size,
      composed_entries inner size hinner⟩
    rw [script, Action.entries_shape,
      Action.entries_region shape _ (length_of_answers hinner size)]
  | pair shape first second, side, s, gs, h => by
    let size := (shape.pair side).first.size
    let size' := (shape.pair side).second.size
    rw [leaves, Source.answers_append] at h
    obtain ⟨gs₁, gs₂, rfl, h₁, h₂⟩ := List.map_eq_append_iff.1 h.symm
    refine ⟨Action.entries (first.script size) gs₁, Action.entries (second.script size') gs₂, ?_,
      leaves_entries h₁.symm size, composed_entries first size h₁.symm,
      leaves_entries h₂.symm size', composed_entries second size' h₂.symm⟩
    have hdivider (line : Segment α) (as : List (Action α)) (gs : List Glyph) :
        Action.entries (.divider line :: as) gs = .mark (.line line) :: Action.entries as gs := rfl
    have hfirst := length_of_answers h₁.symm size
    rw [script, Action.entries_shape, hdivider, Action.entries_append _ gs₂ _ gs₁,
      Action.entries_region shape _ hfirst,
      Action.entries_region shape _ (length_of_answers h₂.symm size')]
    rw [Action.lookups_framed, Action.lookups_enteringRegion, hfirst]

/-- Two canvases that still take as many strokes get the same drawing, whatever their frames and
whatever was drawn on them before: it ends alike, asks its source the same, and adds the same
entries, but for where the glyphs lie. The log of a drawing that succeeds is put together from those
of its components, each drawn by itself. -/
theorem renderOn_anywhere (source : Source σ) (d : Diagram) (side : α) (h : c.left = c'.left)
    (s : σ) :
    let drawn := d.renderOn source side c s
    let drawn' := d.renderOn source side c' s
    Draw.EndAlike c.strokes c'.strokes drawn.1 drawn'.1 ∧ drawn.2.2 = drawn'.2.2 ∧
      ∃ log log', drawn.2.1.ops.toList = c.ops.toList ++ log ∧
        drawn'.2.1.ops.toList = c'.ops.toList ++ log' ∧
        log.map Op.unplaced = log'.map Op.unplaced ∧
        (drawn.1 = .ok () → ∃ inner, log = .save :: (inner ++ [.restore]) ∧
          d.Composed source side s (inner.map Op.unplaced)) := by
  intro drawn drawn'
  rcases hu : Scalar.usable side with _ | _
  · have hrefused (c : Canvas α) : d.renderOn source side c s = (.error (.invalidSide side), c, s) := by
      rw [renderOn, render, hu]
      rfl
    have hdrawn : drawn = _ := hrefused c
    have hdrawn' : drawn' = _ := hrefused c'
    rw [hdrawn, hdrawn']
    exact ⟨.invalidSide side, rfl, [], [], (List.append_nil _).symm, (List.append_nil _).symm, rfl,
      fun hok => by cases hok⟩
  · obtain ⟨hend, hstate, log, log', hlog, hlog', heq⟩ :=
      Draw.perform_abreast source (Action.framed (d.script side)) (m := 0) (s := s)
        (Canvas.Abreast.refl_left h)
    have hdrawn : drawn = _ := renderOn_eq_perform hu
    have hdrawn' : drawn' = _ := renderOn_eq_perform hu
    rw [← hdrawn, ← hdrawn'] at hend hstate
    rw [← hdrawn] at hlog
    rw [← hdrawn'] at hlog'
    refine ⟨hend, hstate, log, log', hlog, hlog', heq, fun hok => ?_⟩
    have hperformed : (Draw.perform source 0 (Action.framed (d.script side))).exec c s =
        (.ok (), drawn.2) := hdrawn.symm.trans (Prod.ext hok rfl)
    obtain ⟨hroom, gs, hgs⟩ := Draw.answers_of_perform_ok _ hperformed
    rw [flatMap_events_framed, lookups_events] at hgs
    rw [flatMap_events_framed] at hroom
    -- The drawing itself is one of those that the diagram makes by itself.
    obtain ⟨-, log'', hops, hinner⟩ := leaves_entries hgs side hu σ source s c rfl hroom
    have hlogs : log = .save :: (log'' ++ [.restore]) :=
      List.append_cancel_left (hlog.symm.trans hops)
    exact ⟨log'', hlogs, by rw [hinner]; exact composed_entries d side hgs⟩

/-- A blank canvas, and one that was moved and has taken two strokes of four. -/
theorem renderOn_anywhere_moved :
    let d : Diagram := .solo (.triangle .restriction) (.rune "sun")
    let source : Source Unit := .ofGlyphs fun _ => ⟨[[⟨0, 1⟩, ⟨1, 0⟩]]⟩
    let c : Canvas Float := .blank (some 2)
    let border : Op Float := .mark (.rect Point.origin 1 1)
    let c' := [.translate 3 4, border, .save, border].foldl Canvas.apply (.blank (some 4))
    let drawn := d.renderOn source 1 c ()
    let drawn' := d.renderOn source 1 c' ()
    c.left = c'.left ∧ drawn.1 = .ok () ∧ drawn'.1 = .ok () ∧
      ∃ log log', drawn.2.1.ops.toList = c.ops.toList ++ log ∧
        drawn'.2.1.ops.toList = c'.ops.toList ++ log' ∧
        log.map Op.unplaced = log'.map Op.unplaced := by
  intro d source c border c' drawn drawn'
  have hleft : c.left = c'.left := rfl
  obtain ⟨hend, -, log, log', hlog, hlog', heq, -⟩ := renderOn_anywhere source d 1 hleft ()
  have hroom : c.HasRoom (strokeCount d.events) := fun k hk => by
    cases hk
    decide
  have hglyph : source.answers d.leaves () = [⟨[[⟨0, 1⟩, ⟨1, 0⟩]]⟩].map .ok := rfl
  have hok : drawn.1 = .ok () :=
    (leaves_entries hglyph 1 (by decide) Unit source () c rfl hroom).1
  refine ⟨hleft, hok, ?_, log, log', hlog, hlog', heq⟩
  change Draw.EndAlike _ _ drawn.1 drawn'.1 at hend
  rw [hok] at hend
  cases hend
  rfl

end Diagram

end MagicCircle
