import MagicCircle.Proofs.Drawing.FirstFailure
import MagicCircle.Proofs.Drawing.Lookups
import MagicCircle.Proofs.Glyph.Slots

/-!
# The first rune without a glyph

On a canvas that takes every stroke a drawing fails at the first rune without a glyph, and at nothing
else (`Diagram.renderOn_unlimited`). A cache in front of a source whose answers never change makes
no difference to a drawing (`Diagram.renderOn_cached`).
-/

namespace MagicCircle

variable {α σ : Type} {answer : String → Except GlyphError Glyph} {c : Canvas α}

theorem lookupFailure?_eq_none_iff {name : String} :
    (lookupFailure? answer name : Option (DrawError α)) = none ↔ ∃ g, answer name = .ok g := by
  unfold lookupFailure?
  rcases answer name with cause | g <;> simp

theorem lookupFailure?_eq_some_iff {name : String} {e : DrawError α} :
    lookupFailure? answer name = some e ↔ ∃ cause, answer name = .error cause ∧
      e = .leaf name cause := by
  unfold lookupFailure?
  rcases answer name with cause | g <;> simp [eq_comm]

/-- Without a limit only look-ups fail. -/
theorem Event.failure?_of_unlimited (hc : c.limit = none) (step : Event) (taken : Nat) :
    step.failure? answer c taken = step.name?.bind (lookupFailure? answer) := by
  have hrefusal : c.refusal? taken = none := by rw [Canvas.refusal?, Canvas.left, hc]; rfl
  rcases step with _ | _ | name | name
  case lookup => rfl
  all_goals
    unfold failure?
    rw [hrefusal]
    rfl

theorem noFailure_of_unlimited (hc : c.limit = none) (es : List Event) :
    NoFailure answer c 0 es ↔ ∀ name ∈ lookups es, ∃ g, answer name = .ok g := by
  have hleft (k : Nat) : c.left ≠ some k := by simp [Canvas.left, hc]
  rw [noFailure_iff es 0 fun k hk => (hleft k hk).elim]
  exact and_iff_left fun k hk => (hleft k hk).elim

namespace Diagram

variable [Scalar α] {source : Source σ}

/-- On a canvas without a limit a drawing fails as the first of its runes that has no glyph. -/
theorem renderOn_unlimited (hs : source.Answers answer) (d : Diagram) {side : α}
    (hu : Scalar.usable side = true) (hc : c.limit = none) (s : σ) :
    (d.renderOn source side c s).1 =
      match d.leaves.findSome? (lookupFailure? answer) with
      | none => .ok ()
      | some e => .error e := by
  obtain h | ⟨before, step, after, e, hes, hf⟩ := noFailure_or_firstFailure answer c d.events
  · have hnames := (noFailure_of_unlimited hc d.events).1 h
    rw [lookups_events] at hnames
    have hnone : d.leaves.findSome? (lookupFailure? (α := α) answer) = none :=
      List.findSome?_eq_none_iff.2 fun name hname => lookupFailure?_eq_none_iff.2 (hnames name hname)
    rw [(renderOn_ok_iff hs hu).2 h, hnone]
  · obtain ⟨_, _, _, _, _, _, _, _, hdrawn⟩ := renderOn_of_firstFailure hs hu hes hf (s := s)
    have hpassed := (noFailure_of_unlimited hc before).1 hf.passed
    have hfails := hf.fails
    rw [Event.failure?_of_unlimited hc] at hfails
    obtain ⟨name, hname, he⟩ := Option.bind_eq_some_iff.1 hfails
    have hleaves : d.leaves = lookups before ++ name :: lookups after := by
      rw [← lookups_events, hes, lookups_append]
      exact congrArg _ (List.filterMap_cons_some hname)
    have hfirst : d.leaves.findSome? (lookupFailure? answer) = some e := by
      refine List.findSome?_eq_some_iff.2 ⟨_, name, _, hleaves, he, fun n hn => ?_⟩
      exact lookupFailure?_eq_none_iff.2 (hpassed n hn)
    rw [hdrawn, hfirst]

end Diagram

/-! ## A cache in front of constant answers -/

namespace Source

theorem answers_ofFunction (answer : String → Except GlyphError Glyph) :
    (ofFunction answer : Source σ).Answers answer := fun _ _ => rfl

variable {source : Source σ}

theorem Answers.answers_eq (h : source.Answers answer) : ∀ (names : List String) (s : σ),
    source.answers names s = names.map answer
  | [], _ => rfl
  | name :: names, s => by rw [answers, h name s, h.answers_eq names, List.map_cons]

/-- What the cache has found stays right. -/
theorem Answers.answers_cached (h : source.Answers answer) : ∀ (names : List String) {t : Table}
    {s : σ}, (∀ n g, t.get? n = some g → answer n = .ok g) →
      source.cached.answers names (t, s) = names.map answer
  | [], _, _, _ => rfl
  | name :: names, t, s, ht => by
    have hs : source name s = (answer name, (source name s).2) := Prod.ext (h name s) rfl
    unfold answers
    rw [cached_eq, hs, List.map_cons]
    rcases hname : t.get? name with _ | g
    · rcases ha : answer name with e | g <;> dsimp only
      · rw [h.answers_cached names ht]
      · rw [h.answers_cached names]
        intro n g' hn
        rw [Table.get?_insert_of_none hname] at hn
        split_ifs at hn with heq
        · cases hn
          rw [heq, ha]
        · exact ht n g' hn
    · dsimp only
      rw [ht name g hname, h.answers_cached names ht]

theorem answers_cached_empty (answer : String → Except GlyphError Glyph) (names : List String)
    (s : σ) : (ofFunction answer : Source σ).cached.answers names ({}, s) = names.map answer :=
  (answers_ofFunction answer).answers_cached names nofun

end Source

/-- With a cache or without, a drawing of constant glyphs is the same. -/
theorem Diagram.renderOn_cached [Scalar α] (answer : String → Except GlyphError Glyph)
    (d : Diagram) (side : α) (c : Canvas α) (s : σ) :
    let drawn := d.renderOn (Source.ofFunction answer) side c s
    let drawn' := d.renderOn (Source.ofFunction answer : Source σ).cached side c ({}, s)
    drawn'.1 = drawn.1 ∧ drawn'.2.1 = drawn.2.1 := by
  refine renderOn_congr ?_ side c
  rw [(Source.answers_ofFunction answer).answers_eq, Source.answers_cached_empty]

end MagicCircle
