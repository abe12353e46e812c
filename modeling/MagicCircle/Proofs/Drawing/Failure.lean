import MagicCircle.Drawing.Failure
import MagicCircle.Proofs.Drawing.Log
import MagicCircle.Proofs.Drawing.Steps
import Mathlib.Tactic.SplitIfs

/-!
# Steps that fail

Which steps of a drawing fail, as far as the answers to its look-ups and the strokes before them
tell (`noFailure_iff`), and what an action comes to in each case
(`Action.exec_draw_of_noFailure`, `Action.exec_draw_of_failure`). The canvas in the middle of a
drawing is one on which some strokes were taken already (`Canvas.After`).
-/

namespace MagicCircle

variable {α σ : Type} {answer : String → Except GlyphError Glyph} {c c' : Canvas α}
  {taken : Nat}

theorem strokeCount_append (es es' : List Event) :
    strokeCount (es ++ es') = strokeCount es + strokeCount es' := List.countP_append

theorem lookups_append (es es' : List Event) : lookups (es ++ es') = lookups es ++ lookups es' :=
  List.filterMap_append

theorem Diagram.lookups_events : ∀ d : Diagram, lookups d.events = d.leaves
  | rune _ => rfl
  | solo _ d => lookups_events d
  | pair _ d e => by
    have happ := lookups_append d.events e.events
    rw [lookups_events d, lookups_events e] at happ
    exact happ

theorem noFailure_append : ∀ (es es' : List Event) (taken : Nat),
    NoFailure answer c taken (es ++ es') ↔
      NoFailure answer c taken es ∧ NoFailure answer c (taken + strokeCount es) es'
  | [], es', taken => by simp [NoFailure, strokeCount]
  | e :: es, es', taken => by
    rw [List.cons_append, NoFailure, NoFailure, noFailure_append es, and_assoc, Nat.add_assoc,
      ← strokeCount_append]
    rfl

/-- Either no step fails or there is a first one that does. -/
theorem noFailure_or_failure (answer : String → Except GlyphError Glyph) (c : Canvas α) :
    ∀ (es : List Event) (taken : Nat), NoFailure answer c taken es ∨
      ∃ before step after e, es = before ++ step :: after ∧ NoFailure answer c taken before ∧
        step.failure? answer c (taken + strokeCount before) = some e
  | [], _ => .inl trivial
  | first :: es, taken => by
    rcases hf : first.failure? answer c taken with _ | e
    · obtain h | ⟨before, step, after, e, rfl, hb, he⟩ :=
        noFailure_or_failure answer c es (taken + strokeCount [first])
      · exact .inl ⟨hf, h⟩
      · refine .inr ⟨first :: before, step, after, e, rfl, ⟨hf, hb⟩, ?_⟩
        rwa [Nat.add_assoc, ← strokeCount_append] at he
    · exact .inr ⟨[], first, es, e, rfl, trivial, hf⟩

theorem noFailure_or_firstFailure (answer : String → Except GlyphError Glyph) (c : Canvas α)
    (es : List Event) : NoFailure answer c 0 es ∨
      ∃ before step after e, es = before ++ step :: after ∧ FirstFailure answer c before step e := by
  obtain h | ⟨before, step, after, e, hes, hb, he⟩ := noFailure_or_failure answer c es 0
  · exact .inl h
  · rw [Nat.zero_add] at he
    exact .inr ⟨before, step, after, e, hes, hb, he⟩

theorem Canvas.refusal?_eq_none_iff :
    c.refusal? taken = none ↔ ∀ k, c.left = some k → taken < k := by
  rw [refusal?]
  rcases c.left with _ | k <;> simp

theorem Event.failure?_eq_none_iff (step : Event) :
    step.failure? answer c taken = none ↔ (∀ name ∈ lookups [step], ∃ g, answer name = .ok g) ∧
      ∀ k, c.left = some k → step.isStroke = true → taken < k := by
  rcases step with _ | _ | name | name
  case lookup =>
    rcases h : answer name <;> simp [failure?, lookups, name?, isStroke, h]
  all_goals
    simp [failure?, lookups, name?, isStroke, Canvas.refusal?_eq_none_iff]

/-- No step fails exactly when every name has a glyph and the canvas takes all the strokes. -/
theorem noFailure_iff : ∀ (es : List Event) (taken : Nat), (∀ k, c.left = some k → taken ≤ k) →
    (NoFailure answer c taken es ↔ (∀ name ∈ lookups es, ∃ g, answer name = .ok g) ∧
      ∀ k, c.left = some k → taken + strokeCount es ≤ k)
  | [], taken, h => by simpa [NoFailure, lookups, strokeCount] using h
  | step :: es, taken, h => by
    have hcount : strokeCount [step] = if step.isStroke then 1 else 0 := List.countP_singleton
    have hsplit : step :: es = [step] ++ es := rfl
    rw [NoFailure, step.failure?_eq_none_iff, hsplit, lookups_append, strokeCount_append,
      List.forall_mem_append]
    constructor
    · rintro ⟨⟨hname, hleft⟩, hes⟩
      have htaken : ∀ k, c.left = some k → taken + strokeCount [step] ≤ k := by
        intro k hk
        by_cases hs : step.isStroke = true
        · rw [hcount, if_pos hs]
          exact hleft k hk hs
        · rw [hcount, if_neg hs]
          exact h k hk
      obtain ⟨hnames, hall⟩ := (noFailure_iff es _ htaken).1 hes
      exact ⟨⟨hname, hnames⟩, fun k hk => by have := hall k hk; omega⟩
    · rintro ⟨⟨hname, hnames⟩, hall⟩
      have htaken : ∀ k, c.left = some k → taken + strokeCount [step] ≤ k := fun k hk => by
        have := hall k hk
        omega
      refine ⟨⟨hname, fun k hk hs => ?_⟩, (noFailure_iff es _ htaken).2 ⟨hnames, fun k hk => ?_⟩⟩
      · have := htaken k hk
        rw [if_pos hs] at hcount
        omega
      · have := hall k hk
        omega

/-- The canvas after it has taken some strokes. -/
structure Canvas.After (c : Canvas α) (taken : Nat) (c' : Canvas α) : Prop where
  limit : c'.limit = c.limit
  strokes : c'.strokes = c.strokes + taken

/-- The glyph that an answer gives; one without strokes if it gives none. -/
def glyphOf (answer : String → Except GlyphError Glyph) (name : String) : Glyph :=
  match answer name with
  | .ok g => g
  | .error _ => ⟨[]⟩

theorem Canvas.After.accepts_eq (h : c.After taken c') :
    c'.accepts = (c.refusal? taken).isNone := by
  rw [accepts, refusal?, left, h.limit, h.strokes]
  rcases c.limit with _ | k
  · rfl
  · by_cases hk : taken < k - c.strokes
    · simp [hk]
      omega
    · simp [hk]
      omega

theorem Canvas.After.refusal_eq {r : Rejection} (h : c.After taken c')
    (hr : c.refusal? taken = some r) :
    r = ⟨"stroke " ++ toString (c'.strokes + 1) ++ " rejected"⟩ := by
  rw [refusal?] at hr
  rcases hl : c.left with _ | k <;> simp only [hl] at hr
  · cases hr
  · split_ifs at hr
    cases hr
    rw [h.strokes]

namespace Draw

variable {source : Source σ} {s : σ} {name : String}

theorem exec_lookup_ok {g : Glyph} (hs : source.Answers answer) (hg : answer name = .ok g) :
    (lookup source name : Draw α σ Glyph).exec c s = (.ok g, c, source.asked [name] s) := by
  have h : source name s = (.ok g, (source name s).2) := Prod.ext ((hs name s).trans hg) rfl
  rw [exec_lookup, h]
  rfl

theorem exec_lookup_error {cause : GlyphError} (hs : source.Answers answer)
    (hg : answer name = .error cause) : (lookup source name : Draw α σ Glyph).exec c s =
      (.error (.leaf name cause), c, source.asked [name] s) := by
  have h : source name s = (.error cause, (source name s).2) :=
    Prod.ext ((hs name s).trans hg) rfl
  rw [exec_lookup, h]
  rfl

variable (fail : Rejection → DrawError α) (k : Canvas α → Mark α)

theorem exec_stroke_refused {r : Rejection} (h : c.After taken c')
    (hr : c.refusal? taken = some r) :
    (stroke fail k : Draw α σ Unit).exec c' s = (.error (fail r), c', s) := by
  rw [exec_stroke, Canvas.stroke, h.accepts_eq, hr, h.refusal_eq hr]
  rfl

variable [Scalar α]

theorem exec_stroke_taken (h : c.After taken c') (hr : c.refusal? taken = none) :
    (stroke fail k : Draw α σ Unit).exec c' s = (.ok (), c'.apply (.mark (k c')), s) := by
  rw [exec_stroke, Canvas.stroke, h.accepts_eq, hr]
  rfl

end Draw

/-- Which actions a step can belong to, and which steps of the action come before it. -/
theorem Action.events_eq_append_cons {a : Action α} {before after : List Event} {step : Event}
    (h : a.events = before ++ step :: after) :
    (∃ b, a = .border b ∧ before = [] ∧ step = .border) ∨
      (∃ line, a = .divider line ∧ before = [] ∧ step = .divider) ∨
      (∃ name size, a = .rune name size ∧ before = [] ∧ step = .lookup name) ∨
      ∃ name size, a = .rune name size ∧ before = [.lookup name] ∧ step = .glyph name := by
  rcases a with _ | _ | _ | _ | b | line | ⟨name, size⟩ <;> rcases before with _ | ⟨_, _ | _⟩ <;>
    simp_all [events]

section Script

variable [Scalar α] {source : Source σ} {s : σ}

theorem Canvas.After.apply (h : c.After taken c') (glyph : String → Glyph) (a : Action α) :
    c.After (taken + strokeCount a.events) (a.apply glyph c') := by
  refine ⟨(limit_apply ..).trans h.limit, (strokes_apply ..).trans ?_⟩
  rw [h.strokes, Action.countP_isMark_op, Nat.add_assoc]

theorem Action.exec_draw_of_noFailure (hs : source.Answers answer) (hc : c.After taken c')
    {a : Action α} (h : NoFailure answer c taken a.events) : (a.draw source).exec c' s =
      (.ok (), a.apply (glyphOf answer) c', source.asked (lookups a.events) s) := by
  rcases a with _ | _ | _ | _ | b | line | ⟨name, size⟩
  case border =>
    have hr : c.refusal? taken = none := by simpa [NoFailure, events, Event.failure?] using h
    exact Draw.exec_stroke_taken .surface (fun _ => b.mark) hc hr
  case divider =>
    have hr : c.refusal? taken = none := by simpa [NoFailure, events, Event.failure?] using h
    exact Draw.exec_stroke_taken .surface (fun _ => .line line) hc hr
  case rune =>
    obtain ⟨hname, hstroke, -⟩ := h
    rcases hg : answer name with cause | g
    · simp [Event.failure?, hg] at hname
    have hr : c.refusal? taken = none := Option.map_eq_none_iff.1 hstroke
    rw [draw, Diagram.drawRune, Draw.exec_bind_ok (Draw.exec_lookup_ok hs hg),
      Draw.exec_stroke_taken _ _ hc hr, apply, op, glyphOf, hg]
    rfl
  all_goals rfl

theorem Action.exec_draw_of_failure (hs : source.Answers answer) (hc : c.After taken c')
    {a : Action α} {before after : List Event} {step : Event} {e : DrawError α}
    (ha : a.events = before ++ step :: after) (hb : NoFailure answer c taken before)
    (he : step.failure? answer c (taken + strokeCount before) = some e) :
    (a.draw source).exec c' s = (.error e, c', source.asked (lookups (before ++ [step])) s) := by
  obtain ⟨b, rfl, rfl, rfl⟩ | ⟨line, rfl, rfl, rfl⟩ | ⟨name, size, rfl, rfl, rfl⟩ |
    ⟨name, size, rfl, rfl, rfl⟩ := events_eq_append_cons ha
  · obtain ⟨r, hr, rfl⟩ := Option.map_eq_some_iff.1 he
    exact Draw.exec_stroke_refused .surface (fun _ => b.mark) hc hr
  · obtain ⟨r, hr, rfl⟩ := Option.map_eq_some_iff.1 he
    exact Draw.exec_stroke_refused .surface (fun _ => .line line) hc hr
  · rcases hg : answer name with cause | g <;> simp only [Event.failure?, hg] at he <;> cases he
    exact Draw.exec_bind_error (Draw.exec_lookup_error hs hg)
  · rcases hg : answer name with cause | g
    · simp [NoFailure, Event.failure?, hg] at hb
    obtain ⟨r, hr, rfl⟩ := Option.map_eq_some_iff.1 he
    exact (Draw.exec_bind_ok (Draw.exec_lookup_ok hs hg)).trans
      (Draw.exec_stroke_refused _ _ hc hr)

/-- A step that may fail belongs to the action that leaves its mark, and comes before all strokes of
that action. -/
theorem Action.op_of_events {a : Action α} {before after : List Event} {step : Event}
    (h : a.events = before ++ step :: after) (glyph : String → Glyph) (c : Canvas α) :
    strokeCount before = 0 ∧ ∃ m, a.op glyph c = .mark m ∧ step.leaves glyph m = true := by
  obtain ⟨b, rfl, rfl, rfl⟩ | ⟨line, rfl, rfl, rfl⟩ | ⟨name, size, rfl, rfl, rfl⟩ |
    ⟨name, size, rfl, rfl, rfl⟩ := events_eq_append_cons h
  · refine ⟨rfl, b.mark, rfl, ?_⟩
    rcases b <;> rfl
  · exact ⟨rfl, _, rfl, rfl⟩
  · exact ⟨rfl, _, rfl, beq_self_eq_true _⟩
  · exact ⟨rfl, _, rfl, beq_self_eq_true _⟩

end Script

end MagicCircle
