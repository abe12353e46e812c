import MagicCircle.Drawing.Commission
import MagicCircle.Proofs.Drawing.Leaves

/-!
# A cache makes no difference to drawings

`Commission.drawAll_slotted`: drawings that share a cache come to the same as drawings made without
it, whatever fails in them. The cache asks its source once for a name that has a glyph, and for any
other name once for each drawing that looks it up.

The invariant is `Source.Remembers`, along the names looked up by all the drawings so far. That both
ways of drawing look up the same names is `Diagram.renderOn_inStep`. All of this is shown of a cache
that is a table, and holds of one with slots by `Commission.drawAll_slotted_eq`.
-/

namespace MagicCircle

variable {α σ : Type} {source : Source σ} {answer : String → Except GlyphError Glyph}

namespace Source

theorem Answers.recorded (h : source.Answers answer) :
    Source.Answers (MagicCircle.recorded source) answer := fun name s => h name s.2

theorem asked_recorded (source : Source σ) : ∀ (names : List String) (s : List String × σ),
    (Source.asked (recorded source) names s).1 = s.1 ++ names
  | [], s => (List.append_nil _).symm
  | name :: names, s => by
    have hrest := asked_recorded source names (s.1 ++ [name], (source name s.2).2)
    rw [List.append_assoc] at hrest
    exact hrest

namespace Remembers

variable {names : List String} {t : Table} {questions : List String}

theorem nil : Remembers answer [] {} [] :=
  ⟨fun _ => rfl, fun _ _ _ => rfl, fun _ _ _ => rfl⟩

theorem found (h : Remembers answer names t questions) (n : String) (g : Glyph)
    (hn : t.get? n = some g) : answer n = .ok g := by
  rw [h.get?_eq] at hn
  split_ifs at hn
  rcases ha : answer n with e | g' <;> rw [ha] at hn <;> cases hn
  rfl

theorem not_mem (h : Remembers answer names t questions) {n : String} {g : Glyph}
    (hn : t.get? n = none) (ha : answer n = .ok g) : n ∉ names := by
  intro hmem
  rw [h.get?_eq, if_pos hmem, ha] at hn
  cases hn

theorem hit (h : Remembers answer names t questions) {name : String} {g : Glyph}
    (hname : t.get? name = some g) : Remembers answer (names ++ [name]) t questions := by
  have ha := h.found name g hname
  have hmem : name ∈ names := by
    by_contra hnot
    rw [h.get?_eq, if_neg hnot] at hname
    cases hname
  have hnames (n : String) : n ∈ names ++ [name] ↔ n ∈ names := by
    rw [List.mem_append, List.mem_singleton, or_iff_left_of_imp]
    rintro rfl
    exact hmem
  refine ⟨fun n => ?_, fun n g' hn => ?_, fun n e hn => ?_⟩
  · simp only [hnames, h.get?_eq]
  · simp only [hnames, h.count_found n g' hn]
  · have hne : name ≠ n := by
      rintro rfl
      rw [ha] at hn
      cases hn
    rw [List.count_append, List.count_singleton, if_neg (by simpa using hne), h.count_missing n e hn]
    rfl

theorem missing (h : Remembers answer names t questions) {name : String} {e : GlyphError}
    (ha : answer name = .error e) :
    Remembers answer (names ++ [name]) t (questions ++ [name]) := by
  refine ⟨fun n => ?_, fun n g hn => ?_, fun n e' hn => ?_⟩
  · rw [h.get?_eq]
    by_cases hn : n = name
    · subst hn
      simp [ha, Except.toOption]
    · simp [hn]
  · have hne : n ≠ name := by
      rintro rfl
      rw [ha] at hn
      cases hn
    rw [List.count_append, h.count_found n g hn]
    simp [hne, Ne.symm hne]
  · rw [List.count_append, List.count_append, h.count_missing n e' hn]

theorem fill (h : Remembers answer names t questions) {name : String} {g : Glyph}
    (hname : t.get? name = none) (ha : answer name = .ok g) :
    Remembers answer (names ++ [name]) (t.insert name g) (questions ++ [name]) := by
  have hnot := h.not_mem hname ha
  refine ⟨fun n => ?_, fun n g' hn => ?_, fun n e hn => ?_⟩
  · rw [Table.get?_insert_of_none hname, h.get?_eq]
    by_cases hn : n = name
    · subst hn
      simp [ha, Except.toOption]
    · simp [hn]
  · rw [List.count_append, h.count_found n g' hn]
    by_cases hn' : n = name
    · subst hn'
      simp [hnot]
    · simp [hn', Ne.symm hn']
  · rw [List.count_append, List.count_append, h.count_missing n e hn]

/-- One more look-up, in a cache that keeps count of what it asks its source. -/
theorem lookup (h : Remembers answer names t questions) (hs : source.Answers answer) (name : String)
    (s : σ) : ∃ t' questions' s',
      (Source.cached (recorded source) name (t, questions, s)).2 = (t', questions', s') ∧
        Remembers answer (names ++ [name]) t' questions' := by
  have hrec : recorded source name (questions, s) =
      (answer name, questions ++ [name], (source name s).2) := Prod.ext (hs name s) rfl
  rw [cached_eq, hrec]
  rcases hname : t.get? name with _ | g
  · rcases ha : answer name with e | g
    · exact ⟨t, _, _, rfl, h.missing ha⟩
    · exact ⟨_, _, _, rfl, h.fill hname ha⟩
  · exact ⟨t, questions, s, rfl, h.hit hname⟩

theorem asked (hs : source.Answers answer) : ∀ (names' : List String) {names : List String}
    {t : Table} {questions : List String} {s : σ}, Remembers answer names t questions →
      ∃ t' questions' s',
        Source.asked (Source.cached (recorded source)) names' (t, questions, s) =
          (t', questions', s') ∧ Remembers answer (names ++ names') t' questions'
  | [], names, t, questions, s, h => ⟨t, questions, s, rfl, by rwa [List.append_nil]⟩
  | name :: names', names, t, questions, s, h => by
    obtain ⟨t₁, questions₁, s₁, hstate, h₁⟩ := h.lookup hs name s
    obtain ⟨t₂, questions₂, s₂, hrest, h₂⟩ := asked hs names' (s := s₁) h₁
    refine ⟨t₂, questions₂, s₂, ?_, ?_⟩
    · rw [← hrest, ← hstate]
      rfl
    · rwa [List.append_assoc] at h₂

end Remembers

/-- Look-ups in a cache of slots, and in the table of its glyphs. -/
theorem answers_slotted (source : Source σ) : ∀ (names : List String) {k : Slots} (s : σ), k.Sound →
    source.slotted.answers names (k, s) = source.cached.answers names (k.table, s)
  | [], _, _, _ => rfl
  | name :: names, k, s, h => by
    obtain ⟨hsound, heq⟩ := source.slotted_eq h name s
    rw [answers, answers, heq]
    exact congrArg _ (answers_slotted source names _ hsound)

theorem asked_slotted (source : Source σ) : ∀ (names : List String) {k : Slots} (s : σ), k.Sound →
    (source.slotted.asked names (k, s)).1.Sound ∧
      source.cached.asked names (k.table, s) =
        ((source.slotted.asked names (k, s)).1.table, (source.slotted.asked names (k, s)).2)
  | [], _, _, h => ⟨h, rfl⟩
  | name :: names, k, s, h => by
    obtain ⟨hsound, heq⟩ := source.slotted_eq h name s
    have hfirst : (source.cached name (k.table, s)).2 =
        ((source.slotted name (k, s)).2.1.table, (source.slotted name (k, s)).2.2) := by rw [heq]
    have hrest := asked_slotted source names (source.slotted name (k, s)).2.2 hsound
    rw [← hfirst] at hrest
    exact hrest

end Source

namespace Commission

open Source (Remembers)

variable [Scalar α]

/-- Sources with the same answers for the runes of a drawing come to the same drawing, and are asked
for the same ones of its runes. -/
theorem draw_inStep {source : Source σ} {source' : Source τ} {s : σ} {t : τ} (w : Commission α)
    (h : source.answers w.diagram.leaves s = source'.answers w.diagram.leaves t) :
    ∃ done drawn, done <+: w.diagram.leaves ∧ w.draw source s = (drawn, source.asked done s) ∧
      w.draw source' t = (drawn, source'.asked done t) := by
  obtain ⟨done, result, c', hdone, hs, ht⟩ := Diagram.renderOn_inStep h w.side w.canvas
  exact ⟨done, (result, c'), hdone, by rw [draw, hs], by rw [draw, ht]⟩

/-- The cache of slots draws as the table of its glyphs does. -/
theorem drawAll_slotted_eq (source : Source σ) : ∀ (ws : List (Commission α)) {k : Slots} (s : σ),
    k.Sound → drawAll source.cached ws (k.table, s) =
      ((drawAll source.slotted ws (k, s)).1, (drawAll source.slotted ws (k, s)).2.1.table,
        (drawAll source.slotted ws (k, s)).2.2)
  | [], _, _, _ => rfl
  | w :: ws, k, s, h => by
    obtain ⟨done, drawn, -, hslotted, hcached⟩ :=
      w.draw_inStep (source.answers_slotted w.diagram.leaves s h)
    obtain ⟨hsound, hasked⟩ := source.asked_slotted done s h
    have hrest := drawAll_slotted_eq source ws (source.slotted.asked done (k, s)).2 hsound
    rw [drawAll, drawAll, hslotted, hcached, hasked, hrest]

section Constant

variable (hs : source.Answers answer)
include hs

/-- The answers being constant, neither the state of the source nor keeping a record makes a
difference. -/
theorem draw_recorded (w : Commission α) (s t : σ) :
    (w.draw (recorded source) ([], s)).1 = (w.draw source t).1 := by
  obtain ⟨_, drawn, -, hrecorded, hdirect⟩ := w.draw_inStep (s := ([], s)) (t := t)
    ((hs.recorded.answers_eq ..).trans (hs.answers_eq ..).symm)
  rw [hrecorded, hdirect]

/-- A cache that remembers what was looked up before makes the same drawing, and remembers also what
that looks up. -/
theorem draw_cached (w : Commission α) {names : List String} {t : Table} {questions : List String}
    (h : Remembers answer names t questions) (s u : σ) : ∃ t' questions' s',
      w.draw (Source.cached (recorded source)) (t, questions, s) =
          ((w.draw source u).1, t', questions', s') ∧
        Remembers answer (names ++ w.lookedUp source u) t' questions' := by
  obtain ⟨done, drawn, -, hdirect, hcached⟩ := w.draw_inStep (s := ([], u)) (t := (t, questions, s))
    ((hs.recorded.answers_eq ..).trans (hs.recorded.answers_cached _ h.found).symm)
  have hdone : w.lookedUp source u = done := by
    rw [lookedUp, hdirect]
    exact (Source.asked_recorded source done ([], u)).trans (List.nil_append done)
  obtain ⟨t', questions', s', hasked, h'⟩ := Remembers.asked hs done (s := s) h
  refine ⟨t', questions', s', ?_, by rwa [hdone]⟩
  rw [hcached, hasked, ← draw_recorded hs w u u, hdirect]

theorem drawAll_cached : ∀ (ws : List (Commission α)) {names : List String} {t : Table}
    {questions : List String}, Remembers answer names t questions → ∀ s u : σ,
      ∃ t' questions' s', drawAll (Source.cached (recorded source)) ws (t, questions, s) =
          (ws.map fun w => (w.draw source u).1, t', questions', s') ∧
        Remembers answer (names ++ ws.flatMap fun w => w.lookedUp source u) t' questions'
  | [], _, t, questions, h, s, _ => ⟨t, questions, s, rfl, by rwa [List.flatMap_nil, List.append_nil]⟩
  | w :: ws, _, _, _, h, s, u => by
    obtain ⟨t₁, questions₁, s₁, hdraw, h₁⟩ := draw_cached hs w h s u
    obtain ⟨t₂, questions₂, s₂, hrest, h₂⟩ := drawAll_cached ws h₁ s₁ u
    refine ⟨t₂, questions₂, s₂, ?_, ?_⟩
    · rw [drawAll, hdraw, hrest, List.map_cons]
    · rwa [List.flatMap_cons, ← List.append_assoc]

/-- A drawing stops at the first name without a glyph, so it looks up no such name twice. -/
theorem count_lookedUp_le_one (w : Commission α) (s : σ) {n : String} {e : GlyphError}
    (hn : answer n = .error e) : (w.lookedUp source s).count n ≤ 1 := by
  have hnot {es : List Event} (h : NoFailure answer w.canvas 0 es) : n ∉ lookups es := by
    intro hmem
    obtain ⟨g, hg⟩ := ((noFailure_iff es 0 fun k _ => k.zero_le).1 h).1 n hmem
    rw [hn] at hg
    cases hg
  have hstate {done : List String} (h : (w.diagram.renderOn (recorded source) w.side w.canvas
      ([], s)).2.2 = Source.asked (recorded source) done ([], s)) : w.lookedUp source s = done := by
    rw [lookedUp, draw, h]
    exact (Source.asked_recorded source done ([], s)).trans (List.nil_append done)
  obtain h | ⟨before, step, after, e', hes, hf⟩ :=
    noFailure_or_firstFailure answer w.canvas w.diagram.events
  · obtain ⟨done, hdone, hasked⟩ :=
      Diagram.renderOn_asks (recorded source) w.diagram w.side w.canvas ([], s)
    have hnone := hnot h
    rw [Diagram.lookups_events] at hnone
    rw [hstate hasked, List.count_eq_zero_of_not_mem fun hmem => hnone (hdone.subset hmem)]
    exact Nat.zero_le 1
  · rcases hu : Scalar.usable w.side with _ | _
    · have hnothing : w.lookedUp source s = [] := by
        rw [lookedUp, draw, Diagram.renderOn, Diagram.render, hu]
        rfl
      rw [hnothing]
      exact Nat.zero_le 1
    · obtain ⟨_, _, _, _, _, _, _, _, hdrawn⟩ :=
        Diagram.renderOn_of_firstFailure hs.recorded hu hes hf (s := ([], s))
      have hnames := hstate (congrArg (fun drawn => drawn.2.2) hdrawn)
      rw [hnames, lookups_append, List.count_append,
        List.count_eq_zero_of_not_mem (hnot hf.passed), Nat.zero_add]
      exact Nat.le_trans List.count_le_length (List.length_filterMap_le ..)

/-- A name without a glyph is looked up once in each of the drawings that reach it. -/
theorem count_flatMap_lookedUp (s : σ) {n : String} {e : GlyphError} (hn : answer n = .error e) :
    ∀ ws : List (Commission α), (ws.flatMap fun w => w.lookedUp source s).count n =
      ws.countP fun w => n ∈ w.lookedUp source s
  | [] => rfl
  | w :: ws => by
    have hw := count_lookedUp_le_one hs w s hn
    rw [List.flatMap_cons, List.count_append, count_flatMap_lookedUp s hn ws, List.countP_cons,
      Nat.add_comm]
    by_cases hmem : n ∈ w.lookedUp source s
    · have hpos := List.count_pos_iff.2 hmem
      rw [if_pos (decide_eq_true hmem)]
      omega
    · rw [List.count_eq_zero_of_not_mem hmem, if_neg (by simpa using hmem)]

/-- Drawings that share a cache come to the same as without it, whatever becomes of those before
them. The cache asks once for a name that has a glyph, if a drawing looks it up at all, and for a name
that has none once for each drawing that looks it up. -/
theorem drawAll_slotted (ws : List (Commission α)) (s t : σ) :
    let shared := drawAll (Source.slotted (recorded source)) ws ({}, [], s)
    let questions := shared.2.2.1
    shared.1 = ws.map (fun w => (w.draw source t).1) ∧
      (∀ n g, answer n = .ok g →
        questions.count n = if ∃ w ∈ ws, n ∈ w.lookedUp source t then 1 else 0) ∧
      ∀ n e, answer n = .error e → questions.count n = ws.countP fun w => n ∈ w.lookedUp source t := by
  intro shared questions
  obtain ⟨table, questions', s', hcached, h⟩ := drawAll_cached hs ws .nil s t
  have hshared := drawAll_slotted_eq (recorded source) ws ([], s) Slots.sound_empty
  have heq : (shared.1, shared.2.1.table, shared.2.2) = _ := hshared.symm.trans hcached
  obtain ⟨hdrawn, hrest⟩ := Prod.ext_iff.1 heq
  have hquestions : questions = questions' := congrArg (fun r => r.2.1) hrest
  rw [hquestions]
  refine ⟨hdrawn, fun n g hn => ?_, fun n e hn => ?_⟩
  · rw [h.count_found n g hn, List.nil_append]
    simp only [List.mem_flatMap]
  · rw [h.count_missing n e hn, List.nil_append, count_flatMap_lookedUp hs t hn ws]

end Constant

/-- Two suns are one question, two moons are two. -/
theorem drawAll_slotted_sun_moon :
    let answer : String → Except GlyphError Glyph := fun n =>
      if n = "sun" then .ok ⟨[]⟩ else .error (.notFound n)
    let source : Source Unit := .ofFunction answer
    let suns : Diagram := .pair .spell (.rune "sun") (.rune "sun")
    let moon : Diagram := .solo .unit (.rune "moon")
    let ws : List (Commission Float) := [suns, moon, moon].map fun d => ⟨d, 1, Canvas.blank none⟩
    let questions := (drawAll (Source.slotted (recorded source)) ws ({}, [], ())).2.2.1
    source.Answers answer ∧ questions.count "sun" = 1 ∧ questions.count "moon" = 2 := by
  intro answer source suns moon ws questions
  have hs : source.Answers answer := Source.answers_ofFunction answer
  obtain ⟨-, hfound, hmissing⟩ := drawAll_slotted hs ws () ()
  refine ⟨hs, (hfound "sun" ⟨[]⟩ rfl).trans ?_, (hmissing "moon" _ rfl).trans ?_⟩
  · decide
  · decide

end Commission

end MagicCircle
