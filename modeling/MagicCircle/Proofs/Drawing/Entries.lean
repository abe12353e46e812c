import MagicCircle.Drawing.Composition
import MagicCircle.Proofs.Drawing.FirstFailure
import MagicCircle.Proofs.Drawing.Lookups

/-!
# What a script adds to a log

A script is performed to its end exactly when its look-ups find glyphs and the canvas takes its
strokes (`Draw.perform_entries`, `Draw.answers_of_perform_ok`). What it adds to the log is then
settled by the script and those glyphs, but for where the glyphs lie.
-/

namespace MagicCircle

variable {α σ : Type} {source : Source σ} {c : Canvas α} {s : σ}

namespace Canvas.HasRoom

theorem refusal?_eq_none (h : c.HasRoom 1) : c.refusal? 0 = none :=
  refusal?_eq_none_iff.2 h

theorem mono {m n : Nat} (h : c.HasRoom n) (hmn : m ≤ n) : c.HasRoom m :=
  fun k hk => Nat.le_trans hmn (h k hk)

end Canvas.HasRoom

variable [Scalar α]

namespace Canvas

theorem left_apply (op : Op α) :
    (c.apply op).left = c.left.map fun k => k - [op].countP Op.isMark := by
  rw [left, left, limit_apply, strokes_apply, Option.map_map]
  refine congrArg (fun f => c.limit.map f) (funext fun limit => ?_)
  exact Nat.sub_add_eq ..

theorem hasRoom_apply_iff {op : Op α} {n : Nat} (h : c.HasRoom ([op].countP Op.isMark)) :
    (c.apply op).HasRoom n ↔ c.HasRoom ([op].countP Op.isMark + n) := by
  unfold HasRoom at h ⊢
  rw [left_apply]
  rcases hleft : c.left with _ | k
  · simp
  · have hk := h k hleft
    simp only [Option.map_some, Option.some.injEq, forall_eq']
    omega

end Canvas

namespace Op

theorem kind_unplaced (op : Op α) : op.unplaced.kind = op.kind := by
  rcases op with _ | _ | _ | _ | ⟨_ | _ | _ | _ | _⟩ <;> rfl

theorem isMark_unplaced (op : Op α) : op.unplaced.isMark = op.isMark := by
  rcases op with _ | _ | _ | _ | ⟨_ | _ | _ | _ | _⟩ <;> rfl

theorem glyphStrokes?_unplaced (op : Op α) : op.unplaced.glyphStrokes? = op.glyphStrokes? := by
  rcases op with _ | _ | _ | _ | ⟨_ | _ | _ | _ | _⟩ <;> rfl

end Op

namespace Action

theorem lookups_events_cases (a : Action α) :
    (∃ name size, a = .rune name size) ∨ lookups a.events = [] ∧ ∀ g g', a.entry g = a.entry g' := by
  rcases a with _ | _ | _ | _ | _ | _ | ⟨name, size⟩
  case rune => exact .inl ⟨name, size, rfl⟩
  all_goals exact .inr ⟨rfl, fun _ _ => rfl⟩

theorem entries_append (bs : List (Action α)) (gs' : List Glyph) :
    ∀ (as : List (Action α)) (gs : List Glyph),
      gs.length = (lookups (as.flatMap events)).length →
        entries (as ++ bs) (gs ++ gs') = entries as gs ++ entries bs gs'
  | [], gs, h => by
    obtain rfl := List.length_eq_zero_iff.1 h
    rfl
  | a :: as, gs, h => by
    rw [List.flatMap_cons, lookups_append, List.length_append] at h
    rw [List.cons_append, entries, entries, List.cons_append]
    obtain ⟨name, size, rfl⟩ | ⟨hnone, hentry⟩ := a.lookups_events_cases
    · have hone : (lookups (rune name size).events).length = 1 := rfl
      rcases gs with _ | ⟨g, gs⟩
      · rw [List.length_nil] at h
        omega
      · refine congrArg _ (entries_append bs gs' as gs ?_)
        rw [List.length_cons, Nat.add_comm] at h
        exact Nat.add_left_cancel h
    · rw [hnone, List.length_nil, Nat.zero_add] at h
      rw [hnone, List.length_nil, List.drop_zero, List.drop_zero,
        hentry ((gs ++ gs').headD _) (gs.headD _), entries_append bs gs' as gs h]

theorem entries_framed (as : List (Action α)) {gs : List Glyph}
    (h : gs.length = (lookups (as.flatMap events)).length) :
    entries (framed as) gs = .save :: (entries as gs ++ [.restore]) := by
  have happ := entries_append [.restore] [] as gs h
  rw [List.append_nil] at happ
  exact congrArg (.save :: ·) happ

/-- The strokes that an action adds to a log are those among its steps. -/
theorem countP_isMark_of_entry {a : Action α} {op : Op α} {g : Glyph}
    (h : op.unplaced = a.entry g) : [op].countP Op.isMark = strokeCount a.events := by
  rw [← countP_isMark_op (fun _ => g) (Canvas.blank none) a, List.countP_singleton,
    List.countP_singleton, ← op.isMark_unplaced, h, entry, Op.isMark_unplaced]

theorem exec_draw_of_answers {a : Action α} {gs : List Glyph}
    (hg : source.answers (lookups a.events) s = gs.map .ok)
    (hroom : c.HasRoom (strokeCount a.events)) :
    ∃ op, (a.draw source).exec c s = (.ok (), c.apply op, source.asked (lookups a.events) s) ∧
      op.unplaced = a.entry (gs.headD ⟨[]⟩) := by
  have hc : c.After 0 c := ⟨rfl, rfl⟩
  rcases a with _ | _ | ⟨x, y⟩ | radians | b | line | ⟨name, size⟩
  case rune =>
    change [(source name s).1] = _ at hg
    obtain ⟨g, rfl, hfound⟩ := List.map_eq_singleton_iff.1 hg.symm
    refine ⟨.mark (c.glyphMark g.strokes.length size), ?_, rfl⟩
    rw [draw, Diagram.drawRune, Draw.exec_bind_ok (Draw.exec_lookup_resolved hfound.symm),
      Draw.exec_stroke_taken _ _ hc hroom.refusal?_eq_none]
    rfl
  -- No other action looks anything up.
  case save => exact ⟨.save, rfl, rfl⟩
  case restore => exact ⟨.restore, rfl, rfl⟩
  case translate => exact ⟨.translate x y, rfl, rfl⟩
  case rotate => exact ⟨.rotate radians, rfl, rfl⟩
  case border =>
    refine ⟨.mark b.mark, ?_, rfl⟩
    exact Draw.exec_stroke_taken .surface (fun _ => b.mark) hc hroom.refusal?_eq_none
  case divider =>
    refine ⟨.mark (.line line), ?_, rfl⟩
    exact Draw.exec_stroke_taken .surface (fun _ => .line line) hc hroom.refusal?_eq_none

end Action

namespace Draw

/-- Where its look-ups find the given glyphs, a script is performed to its end. -/
theorem perform_entries : ∀ (as : List (Action α)) {n : Nat} {c : Canvas α} {s : σ}
    {gs : List Glyph}, source.answers (lookups (as.flatMap Action.events)) s = gs.map .ok →
      c.HasRoom (strokeCount (as.flatMap Action.events)) →
        ∃ c' ops, (perform source n as).exec c s =
            (.ok (), c', source.asked (lookups (as.flatMap Action.events)) s) ∧
          c'.ops.toList = c.ops.toList ++ ops ∧ ops.map Op.unplaced = Action.entries as gs
  | [], _, c, _, _, _, _ => ⟨c, [], rfl, (List.append_nil _).symm, rfl⟩
  | a :: as, n, c, s, gs, hg, hroom => by
    rw [List.flatMap_cons, lookups_append, Source.answers_append] at hg
    rw [List.flatMap_cons, strokeCount_append] at hroom
    -- The glyphs that the first action finds, and those that the others do.
    obtain ⟨gs₁, gs₂, rfl, hg₁, hg₂⟩ := List.map_eq_append_iff.1 hg.symm
    have hfirst := hroom.mono (Nat.le_add_right ..)
    obtain ⟨op, hop, hentry⟩ := Action.exec_draw_of_answers hg₁.symm hfirst
    rw [← Action.countP_isMark_of_entry hentry] at hroom hfirst
    obtain ⟨c', ops, hexec, hops, hrest⟩ :=
      perform_entries as (n := a.depth n) hg₂.symm ((Canvas.hasRoom_apply_iff hfirst).2 hroom)
    refine ⟨c', op :: ops, ?_, ?_, ?_⟩
    · rw [perform, exec_bind_ok (exec_leaving_ok hop), hexec, List.flatMap_cons, lookups_append,
        Source.asked_append]
    · rw [hops, Canvas.ops_apply, Array.toList_push, List.append_assoc]
      rfl
    · have hlength : gs₁.length = (lookups ([a].flatMap Action.events)).length := by
        rw [List.flatMap_singleton, ← Source.length_answers source (lookups a.events) s, ← hg₁,
          List.length_map]
      have happ := Action.entries_append as gs₂ [a] gs₁ hlength
      rw [List.map_cons, hentry, hrest]
      exact happ.symm

section Performed

variable {r : Canvas α × σ}

omit [Scalar α] in
theorem hasRoom_of_stroke_ok {fail : Rejection → DrawError α} {k : Canvas α → Mark α}
    (h : (stroke fail k : Draw α σ Unit).exec c s = (.ok (), r)) : c.HasRoom 1 := by
  rcases hr : c.refusal? 0 with _ | refusal
  · exact Canvas.refusal?_eq_none_iff.1 hr
  · rw [exec_stroke_refused fail k (c := c) ⟨rfl, rfl⟩ hr] at h
    cases h

/-- An action that was taken has found its glyph and had room for its stroke. -/
theorem answers_of_draw_ok {a : Action α} (h : (a.draw source).exec c s = (.ok (), r)) :
    c.HasRoom (strokeCount a.events) ∧
      ∃ gs : List Glyph, source.answers (lookups a.events) s = gs.map .ok := by
  rcases a with _ | _ | _ | _ | b | line | ⟨name, size⟩
  case rune =>
    rcases hs : source name s with ⟨e | g, t⟩
    · have hlookup : (lookup source name : Draw α σ Glyph).exec c s = (.error (.leaf name e), c, t) := by
        rw [exec_lookup, hs]
      have herror : (Action.draw source (.rune name size)).exec c s = _ := exec_bind_error hlookup
      rw [herror] at h
      cases h
    · have hlookup : (lookup source name : Draw α σ Glyph).exec c s = (.ok g, c, t) := by
        rw [exec_lookup, hs]
      have hstroke : (Action.draw source (.rune name size)).exec c s = _ := exec_bind_ok hlookup
      rw [hstroke] at h
      refine ⟨hasRoom_of_stroke_ok h, [g], ?_⟩
      exact congrArg (fun answer => [answer.1]) hs
  case border =>
    have hstroke : (stroke .surface fun _ => b.mark : Draw α σ Unit).exec c s = _ := h
    exact ⟨hasRoom_of_stroke_ok hstroke, [], rfl⟩
  case divider =>
    have hstroke : (stroke .surface fun _ => .line line : Draw α σ Unit).exec c s = _ := h
    exact ⟨hasRoom_of_stroke_ok hstroke, [], rfl⟩
  all_goals exact ⟨fun k _ => k.zero_le, [], rfl⟩

/-- A script that was performed to its end has found a glyph at each of its look-ups. -/
theorem answers_of_perform_ok : ∀ (as : List (Action α)) {n : Nat} {c : Canvas α} {s : σ},
    (perform source n as).exec c s = (.ok (), r) →
      c.HasRoom (strokeCount (as.flatMap Action.events)) ∧
        ∃ gs : List Glyph, source.answers (lookups (as.flatMap Action.events)) s = gs.map .ok
  | [], _, _, _, _ => ⟨fun k _ => k.zero_le, [], rfl⟩
  | a :: as, n, c, s, h => by
    rcases ha : (a.draw source).exec c s with ⟨e | _, c', s'⟩
    · rw [perform, exec_bind_error (exec_leaving_error ha)] at h
      cases h
    rw [perform, exec_bind_ok (exec_leaving_ok ha)] at h
    obtain ⟨hroom, gs, hgs⟩ := answers_of_draw_ok ha
    obtain ⟨op, hop, hentry⟩ := Action.exec_draw_of_answers hgs hroom
    obtain ⟨hrest, gs', hgs'⟩ := answers_of_perform_ok as h
    rw [ha] at hop
    cases hop
    rw [← Action.countP_isMark_of_entry hentry] at hroom
    rw [Canvas.hasRoom_apply_iff hroom, Action.countP_isMark_of_entry hentry] at hrest
    rw [List.flatMap_cons, strokeCount_append, lookups_append, Source.answers_append, hgs, hgs']
    exact ⟨hrest, gs ++ gs', (List.map_append ..).symm⟩

end Performed

end Draw

end MagicCircle
