import MagicCircle.Drawing.Inventory
import MagicCircle.Proofs.Drawing.Entries

/-!
# Everything in a diagram is drawn once

`Diagram.renderOn_draws_each_once`: where all runes have a glyph and the canvas takes all strokes, a
drawing succeeds. Its log has the glyphs of the runes and the borders of the shapes in their order,
and of every other entry as many as the diagrams in the diagram call for.

Which kinds of entries a script adds is settled before it is performed
(`Diagram.count_kind_script`); `Draw.perform_of_answers` says that performing it adds these.
-/

namespace MagicCircle

variable {α σ : Type}

/-! ## The diagrams in a diagram -/

namespace Diagram

theorem map_snd_preorder : ∀ (d : Diagram) (depth : Nat),
    (d.preorder depth).map Prod.snd = d.nodes
  | rune _, _ => rfl
  | solo _ d, depth => by
    unfold nodes
    simp only [preorder, List.map_cons, map_snd_preorder d]
  | pair _ d e, depth => by
    unfold nodes
    simp only [preorder, List.map_cons, List.map_append, map_snd_preorder d, map_snd_preorder e]

theorem nodes_solo (shape : Shape) (d : Diagram) :
    (solo shape d).nodes = solo shape d :: d.nodes := by
  rw [nodes, preorder, List.map_cons, map_snd_preorder]

theorem nodes_pair (shape : Shape) (d e : Diagram) :
    (pair shape d e).nodes = pair shape d e :: (d.nodes ++ e.nodes) := by
  rw [nodes, preorder, List.map_cons, List.map_append, map_snd_preorder, map_snd_preorder]

theorem count_save_share (d : Diagram) : d.share.count .save = 1 := by
  rcases d with _ | ⟨_ | _ | _, _⟩ | ⟨_ | _ | _, _, _⟩ <;> rfl

theorem count_restore_share (d : Diagram) : d.share.count .restore = 1 := by
  rcases d with _ | ⟨_ | _ | _, _⟩ | ⟨_ | _ | _, _, _⟩ <;> rfl

theorem count_divider_share (d : Diagram) :
    d.share.count .divider = if d.children.length = 2 then 1 else 0 := by
  rcases d with _ | ⟨_ | _ | _, _⟩ | ⟨_ | _ | _, _, _⟩ <;> rfl

theorem count_rotate_share (d : Diagram) :
    d.share.count .rotate = if d.isTurned = true then 1 + d.children.length else 0 := by
  rcases d with _ | ⟨_ | _ | _, _⟩ | ⟨_ | _ | _, _, _⟩ <;> rfl

/-- A kind that each diagram adds one entry of. -/
theorem count_flatMap_share {k : Kind} (hk : ∀ d : Diagram, d.share.count k = 1) :
    ∀ ds : List Diagram, (ds.flatMap share).count k = ds.length
  | [] => rfl
  | d :: ds => by
    rw [List.flatMap_cons, List.count_append, hk, count_flatMap_share hk ds, List.length_cons]
    omega

theorem count_divider_flatMap_share : ∀ ds : List Diagram,
    (ds.flatMap share).count .divider = (ds.filter fun d => d.children.length = 2).length
  | [] => rfl
  | d :: ds => by
    rw [List.flatMap_cons, List.count_append, count_divider_share, count_divider_flatMap_share ds]
    by_cases h : d.children.length = 2
    · rw [if_pos h, List.filter_cons_of_pos (by simpa using h), List.length_cons]
      omega
    · rw [if_neg h, List.filter_cons_of_neg (by simpa using h)]
      omega

theorem count_rotate_flatMap_share : ∀ ds : List Diagram, (ds.flatMap share).count .rotate =
    (ds.filter isTurned).length + ((ds.filter isTurned).flatMap children).length
  | [] => rfl
  | d :: ds => by
    rw [List.flatMap_cons, List.count_append, count_rotate_share, count_rotate_flatMap_share ds]
    by_cases h : d.isTurned = true
    · rw [if_pos h, List.filter_cons_of_pos h, List.length_cons, List.flatMap_cons,
        List.length_append]
      omega
    · rw [if_neg h, List.filter_cons_of_neg h]
      omega

/-- The components of a shape are as many as it takes to form it. -/
theorem group_children {shape : Shape} : ∀ {d : Diagram}, d.shape? = some shape →
    group shape d.children = .ok d
  | solo .., rfl => rfl
  | pair .., rfl => rfl

end Diagram

/-! ## Kinds of entries -/

section Kinds

variable [Scalar α]

theorem Border.kind_mark (b : Border α) : b.mark.kind = .border b.figure := by
  cases b <;> rfl

theorem Shape.map_kind_entering (shape : Shape) (side : α) :
    (shape.entering side).map Action.kind = shape.turnIn := by
  rcases shape with _ | _ | t <;> rfl

theorem Shape.map_kind_enteringRegion (shape : Shape) (region : Region α) :
    (shape.enteringRegion region).map Action.kind = shape.turnBack := by
  rcases shape with _ | _ | t <;> rfl

omit [Scalar α] in
theorem Shape.filterMap_turnIn (shape : Shape) : shape.turnIn.filterMap Kind.figure? = [] := by
  rcases shape with _ | _ | t <;> rfl

omit [Scalar α] in
theorem Shape.filterMap_turnBack (shape : Shape) :
    shape.turnBack.filterMap Kind.figure? = [] := by
  rcases shape with _ | _ | t <;> rfl

theorem Shape.figure_solo (shape : Shape) (side : α) :
    (shape.solo side).border.figure = shape.figure := by
  rcases shape with _ | _ | t <;> rfl

theorem Shape.figure_pair (shape : Shape) (side : α) :
    (shape.pair side).border.figure = shape.figure := by
  rcases shape with _ | _ | t <;> rfl

omit [Scalar α] in
theorem Action.map_kind_framed (as : List (Action α)) :
    (framed as).map kind = .save :: (as.map kind ++ [.restore]) := by
  unfold framed
  simp only [List.map_cons, List.map_append, List.map_nil, kind]

namespace Diagram

variable (shape : Shape) (d e : Diagram) (side : α)

theorem map_kind_script_solo : ((solo shape d).script side).map Action.kind =
    shape.turnIn ++ .border shape.figure :: .save :: (shape.turnBack ++
      (d.script (shape.solo side).region.size).map Action.kind ++ [.restore]) := by
  simp only [script, Action.map_kind_framed, List.map_append, List.map_cons,
    Shape.map_kind_entering, Shape.map_kind_enteringRegion, Action.kind, Shape.figure_solo]

theorem map_kind_script_pair : ((pair shape d e).script side).map Action.kind =
    shape.turnIn ++ .border shape.figure :: .divider :: (.save :: (shape.turnBack ++
      (d.script (shape.pair side).first.size).map Action.kind ++ [.restore]) ++
      .save :: (shape.turnBack ++
        (e.script (shape.pair side).second.size).map Action.kind ++ [.restore])) := by
  simp only [script, Action.map_kind_framed, List.map_append, List.map_cons,
    Shape.map_kind_entering, Shape.map_kind_enteringRegion, Action.kind, Shape.figure_pair]

/-- A drawing has as many entries of a kind as the shares of all the diagrams in it. -/
theorem count_kind_script (k : Kind) : ∀ (d : Diagram) (side : α),
    ((Action.framed (d.script side)).map Action.kind).count k = (d.nodes.flatMap share).count k
  | rune _, _ => rfl
  | solo shape d, side => by
    have ih := count_kind_script k d (shape.solo side).region.size
    rw [nodes_solo, List.flatMap_cons, List.count_append, ← ih]
    simp only [Action.map_kind_framed, map_kind_script_solo, share, List.count_append,
      List.count_cons, List.count_nil]
    omega
  | pair shape d e, side => by
    have ih := count_kind_script k d (shape.pair side).first.size
    have ih' := count_kind_script k e (shape.pair side).second.size
    rw [nodes_pair, List.flatMap_cons, List.flatMap_append, List.count_append, List.count_append,
      ← ih, ← ih']
    simp only [Action.map_kind_framed, map_kind_script_pair, share, List.count_append,
      List.count_cons, List.count_nil]
    omega

/-- The borders in a drawing are those of the shapes, in order. -/
theorem filterMap_figure_script : ∀ (d : Diagram) (side : α),
    ((d.script side).map Action.kind).filterMap Kind.figure? =
      d.nodes.filterMap fun e => e.shape?.map Shape.figure
  | rune _, _ => rfl
  | solo shape d, side => by
    have ih := filterMap_figure_script d (shape.solo side).region.size
    rw [map_kind_script_solo, nodes_solo]
    simp only [List.filterMap_append, List.filterMap_cons, List.filterMap_nil, Kind.figure?,
      Shape.filterMap_turnIn, Shape.filterMap_turnBack, ih, List.nil_append, List.append_nil]
    rfl
  | pair shape d e, side => by
    have ih := filterMap_figure_script d (shape.pair side).first.size
    have ih' := filterMap_figure_script e (shape.pair side).second.size
    rw [map_kind_script_pair, nodes_pair]
    simp only [List.filterMap_append, List.filterMap_cons, List.filterMap_nil, Kind.figure?,
      Shape.filterMap_turnIn, Shape.filterMap_turnBack, ih, ih', List.nil_append, List.append_nil]
    rfl

theorem drawnOnce_script (d : Diagram) (side : α) :
    d.DrawnOnce ((Action.framed (d.script side)).map Action.kind) where
  perm := List.perm_iff_count.2 fun k => count_kind_script k d side
  borders := by
    rw [Action.map_kind_framed, List.filterMap_cons, List.filterMap_append,
      filterMap_figure_script]
    exact List.append_nil _
  dividers := by rw [count_kind_script, count_divider_flatMap_share]
  saves := by rw [count_kind_script, count_flatMap_share count_save_share]
  restores := by rw [count_kind_script, count_flatMap_share count_restore_share]
  rotates := by rw [count_kind_script, count_rotate_flatMap_share]

end Diagram

end Kinds

/-! ## Performing a script -/

section Script

variable [Scalar α] {source : Source σ} {c : Canvas α} {s : σ}

theorem Action.map_kind_entries : ∀ (as : List (Action α)) (gs : List Glyph),
    (entries as gs).map Op.kind = as.map kind
  | [], _ => rfl
  | a :: as, gs => by
    have ha : (a.entry (gs.headD ⟨[]⟩)).kind = a.kind := by
      rcases a with _ | _ | _ | _ | b | _ | _
      case border => exact (Op.kind_unplaced _).trans b.kind_mark
      all_goals rfl
    rw [entries, List.map_cons, List.map_cons, ha, map_kind_entries as]

theorem Action.glyphStrokes?_entry {a : Action α} (h : lookups a.events = []) (g : Glyph) :
    (a.entry g).glyphStrokes? = none := by
  rcases a with _ | _ | _ | _ | b | _ | _
  case border => rcases b with _ | _ | _ <;> rfl
  case rune => cases h
  all_goals rfl

theorem Action.filterMap_glyphStrokes?_entries : ∀ (as : List (Action α)) (gs : List Glyph),
    gs.length = (lookups (as.flatMap events)).length →
      (entries as gs).filterMap Op.glyphStrokes? = gs.map fun g => g.strokes.length
  | [], gs, h => by
    obtain rfl := List.length_eq_zero_iff.1 h
    rfl
  | a :: as, gs, h => by
    rw [List.flatMap_cons, lookups_append, List.length_append] at h
    rw [entries]
    obtain ⟨name, size, rfl⟩ | ⟨hnone, -⟩ := a.lookups_events_cases
    · have hone : (lookups (rune name size).events).length = 1 := rfl
      rcases gs with _ | ⟨g, gs⟩
      · rw [List.length_nil] at h
        omega
      · rw [List.length_cons, Nat.add_comm] at h
        exact congrArg (g.strokes.length :: ·)
          (filterMap_glyphStrokes?_entries as gs (Nat.add_left_cancel h))
    · rw [hnone, List.length_nil, Nat.zero_add] at h
      rw [List.filterMap_cons, glyphStrokes?_entry hnone, hnone]
      exact filterMap_glyphStrokes?_entries as gs h

/-- Where its look-ups find the given glyphs, a script is performed to its end. -/
theorem Draw.perform_of_answers (as : List (Action α)) {n : Nat} {gs : List Glyph}
    (hg : source.answers (lookups (as.flatMap Action.events)) s = gs.map .ok)
    (hroom : c.HasRoom (strokeCount (as.flatMap Action.events))) :
    ∃ c' ops, (perform source n as).exec c s =
        (.ok (), c', source.asked (lookups (as.flatMap Action.events)) s) ∧
      c'.ops.toList = c.ops.toList ++ ops ∧ ops.map Op.kind = as.map Action.kind ∧
      ops.filterMap Op.glyphStrokes? = gs.map fun g => g.strokes.length := by
  obtain ⟨c', ops, hexec, hops, hentries⟩ := perform_entries as (n := n) hg hroom
  have hlength : gs.length = (lookups (as.flatMap Action.events)).length := by
    rw [← source.length_answers _ s, hg, List.length_map]
  refine ⟨c', ops, hexec, hops, ?_, ?_⟩
  · rw [← Action.map_kind_entries as gs, ← hentries, List.map_map]
    exact List.map_congr_left fun op _ => op.kind_unplaced.symm
  · rw [← Action.filterMap_glyphStrokes?_entries as gs hlength, ← hentries, List.filterMap_map]
    exact congrArg (fun f => ops.filterMap f) (funext fun op => op.glyphStrokes?_unplaced.symm)

end Script

namespace Diagram

variable [Scalar α] {source : Source σ} {c : Canvas α} {s : σ}

/-- Parts are drawn by the arrangement for their number just if they can be grouped, and then none
of them is left out. -/
theorem around_eq_group (shape : Shape) (ds : List Diagram) (side : α) :
    Draw.around shape (ds.map (draw source)) side =
      (group shape ds).map fun d => d.draw source side := by
  rcases ds with _ | ⟨d, _ | ⟨e, _ | ⟨f, ds⟩⟩⟩
  · rfl
  · refine congrArg Except.ok ?_
    simp [SoloPlan.arrangement, draw]
  · refine congrArg Except.ok ?_
    simp [PairPlan.arrangement, draw]
  · have hlength : ((d :: e :: f :: ds).map (draw (α := α) source)).length =
        (d :: e :: f :: ds).length := List.length_map _
    rw [Draw.around, hlength]
    rfl

/-- Where every rune has a glyph and the canvas takes all strokes, a drawing succeeds and draws the
diagram once, with the glyphs of its runes in order. No shape in it has a number of components that
there is no arrangement for, or too few regions to draw all of them. -/
theorem renderOn_draws_each_once {d : Diagram} {side : α} (hu : Scalar.usable side = true)
    {gs : List Glyph} (hg : source.answers d.leaves s = gs.map .ok)
    (hroom : c.HasRoom (strokeCount d.events)) :
    let drawn := d.renderOn source side c s
    drawn.1 = .ok () ∧
      (∃ ops, drawn.2.1.ops.toList = c.ops.toList ++ ops ∧ d.DrawnOnce (ops.map Op.kind) ∧
        ops.filterMap Op.glyphStrokes? = gs.map fun g => g.strokes.length) ∧
      (∀ e ∈ d.nodes, ∀ shape, e.shape? = some shape → group shape e.children = .ok e ∧
        ∀ side' : α, ∃ plan, shape.arrange e.children.length side' = .ok plan ∧
          plan.regions.length = e.children.length) ∧
      ∀ (shape : Shape) (ds : List Diagram) (side' : α),
        Draw.around shape (ds.map (draw source)) side' =
          (group shape ds).map fun e => e.draw source side' := by
  intro drawn
  rw [← lookups_events, ← flatMap_events_framed d side] at hg
  rw [← flatMap_events_framed d side] at hroom
  obtain ⟨c', ops, hexec, hops, hkind, hstrokes⟩ := Draw.perform_of_answers _ (n := 0) hg hroom
  have hdrawn : drawn = _ := (renderOn_eq_perform hu).trans hexec
  rw [hdrawn]
  refine ⟨rfl, ⟨ops, hops, ?_, hstrokes⟩, fun e _ shape hshape => ?_, around_eq_group⟩
  · rw [hkind]
    exact drawnOnce_script d side
  · refine ⟨group_children hshape, fun side' => ?_⟩
    rcases e with _ | _ | _ <;> cases hshape
    · exact ⟨_, rfl, rfl⟩
    · exact ⟨_, rfl, rfl⟩

/-- A spell around a rune and a target, with two turns for the target. -/
theorem renderOn_draws_target_once :
    let d := pair .spell (rune "sun") (solo (.triangle .target) (rune "moon"))
    let glyph (name : String) : Glyph := ⟨List.replicate name.length []⟩
    let drawn := d.renderOn (Source.ofGlyphs glyph) (1 : Float) (Canvas.blank none) ()
    Scalar.usable (1 : Float) = true ∧ drawn.1 = .ok () ∧
      ∃ ops, drawn.2.1.ops.toList = ops ∧ ops.filterMap Op.glyphStrokes? = [3, 4] ∧
        (ops.map Op.kind).filterMap Kind.figure? = [.circle, .triangle] ∧
        (ops.map Op.kind).count .rotate = 2 := by
  intro d glyph drawn
  have hu : Scalar.usable (1 : Float) = true := by decide
  have hg : (Source.ofGlyphs glyph : Source Unit).answers d.leaves () =
      [glyph "sun", glyph "moon"].map .ok := rfl
  have hroom : (Canvas.blank none : Canvas Float).HasRoom (strokeCount d.events) := nofun
  obtain ⟨hok, ⟨ops, hops, honce, hstrokes⟩, -⟩ := renderOn_draws_each_once hu hg hroom
  exact ⟨hu, hok, ops, hops, hstrokes, honce.borders, honce.rotates⟩

end Diagram

end MagicCircle
