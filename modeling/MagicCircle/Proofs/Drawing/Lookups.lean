import MagicCircle.Proofs.Drawing.Steps

/-!
# What a drawing asks of its source

A drawing looks up the names of its runes from left to right and stops at the first failure
(`Diagram.renderOn_asks`). The answers to these look-ups are all that it takes from its source: two
sources that answer them alike make the same drawing (`Diagram.renderOn_congr`) and are asked for the
same names (`Diagram.renderOn_inStep`).

The induction along the diagram is on `Draw.InStep`, which compares the same step with two sources.
-/

namespace MagicCircle

variable {α σ τ β γ : Type}

namespace Source

variable (source : Source σ)

theorem asked_append (names names' : List String) (s : σ) :
    source.asked (names ++ names') s = source.asked names' (source.asked names s) := by
  unfold asked
  exact List.foldl_append

theorem length_answers : ∀ (names : List String) (s : σ),
    (source.answers names s).length = names.length
  | [], _ => rfl
  | name :: names, s => congrArg (· + 1) (length_answers names (source name s).2)

theorem answers_append (names' : List String) : ∀ (names : List String) (s : σ),
    source.answers (names ++ names') s =
      source.answers names s ++ source.answers names' (source.asked names s)
  | [], _ => rfl
  | name :: names, s =>
    congrArg ((source name s).1 :: ·) (answers_append names' names (source name s).2)

/-- Equal answers to more names are equal answers to the first of them and to the others. -/
theorem answers_append_inj {source' : Source τ} {names names' : List String} {s : σ} {t : τ}
    (h : source.answers (names ++ names') s = source'.answers (names ++ names') t) :
    source.answers names s = source'.answers names t ∧
      source.answers names' (source.asked names s) =
        source'.answers names' (source'.asked names t) := by
  rw [answers_append, answers_append] at h
  exact List.append_inj h (by rw [length_answers, length_answers])

end Source

namespace Draw

variable {source : Source σ} {source' : Source τ} {names names' : List String}

/-- Where the sources answer the names alike, the two steps look up the same ones of them, from the
first on, and come to the same. They may stop on the way only if they fail. -/
def InStep (source : Source σ) (source' : Source τ) (names : List String) (m : Draw α σ β)
    (m' : Draw α τ β) : Prop :=
  ∀ c s t, source.answers names s = source'.answers names t →
    ∃ done result c', done <+: names ∧ (∀ b, result = .ok b → done = names) ∧
      m.exec c s = (result, c', source.asked done s) ∧
      m'.exec c t = (result, c', source'.asked done t)

namespace InStep

theorem bind {m : Draw α σ β} {m' : Draw α τ β} {f : β → Draw α σ γ} {f' : β → Draw α τ γ}
    (hm : InStep source source' names m m') (hf : ∀ b, InStep source source' names' (f b) (f' b)) :
    InStep source source' (names ++ names') (m >>= f) (m' >>= f') := by
  intro c s t h
  obtain ⟨hfirst, hsecond⟩ := source.answers_append_inj h
  obtain ⟨done, e | b, c₁, hdone, hall, hr, hr'⟩ := hm c s t hfirst
  · exact ⟨done, .error e, c₁, hdone.trans (List.prefix_append ..), nofun, exec_bind_error hr,
      exec_bind_error hr'⟩
  · -- Both first steps have looked up all their names.
    obtain rfl := hall b rfl
    obtain ⟨done', result, c₂, hdone', hall', hr₂, hr₂'⟩ := hf b c₁ _ _ hsecond
    refine ⟨done ++ done', result, c₂, (List.prefix_append_right_inj done).2 hdone', ?_, ?_, ?_⟩
    · rintro b' rfl
      rw [hall' b' rfl]
    · rw [exec_bind_ok hr, hr₂, source.asked_append]
    · rw [exec_bind_ok hr', hr₂', source'.asked_append]

theorem onCanvas (f : Canvas α → Canvas α) :
    InStep source source' [] (onCanvas f) (onCanvas f) :=
  fun c _ _ _ => ⟨[], .ok (), f c, List.nil_prefix, fun _ _ => rfl, rfl, rfl⟩

theorem stroke (fail : Rejection → DrawError α) (k : Canvas α → Mark α) :
    InStep source source' [] (stroke fail k) (stroke fail k) := by
  intro c s t _
  rw [exec_stroke, exec_stroke]
  rcases c.stroke (k c) with r | c'
  · exact ⟨[], .error (fail r), c, List.nil_prefix, nofun, rfl, rfl⟩
  · exact ⟨[], .ok (), c', List.nil_prefix, fun _ _ => rfl, rfl, rfl⟩

theorem lookup (name : String) : InStep source source' [name]
    (lookup source name : Draw α σ Glyph) (lookup source' name : Draw α τ Glyph) := by
  intro c s t h
  obtain ⟨h, -⟩ := List.cons.inj h
  rw [exec_lookup, exec_lookup]
  unfold Source.asked
  rcases hs : source name s with ⟨e | g, s'⟩ <;> rcases ht : source' name t with ⟨e' | g', t'⟩ <;>
    rw [hs, ht] at h <;> cases h
  · refine ⟨[name], .error (.leaf name e), c, List.prefix_rfl, nofun, ?_, ?_⟩ <;>
      simp only [List.foldl_cons, List.foldl_nil, hs, ht]
  · refine ⟨[name], .ok g, c, List.prefix_rfl, fun _ _ => rfl, ?_, ?_⟩ <;>
      simp only [List.foldl_cons, List.foldl_nil, hs, ht]

theorem inOwnFrame {m : Draw α σ Unit} {m' : Draw α τ Unit}
    (h : InStep source source' names m m') :
    InStep source source' names (inOwnFrame m) (inOwnFrame m') := by
  intro c s t hst
  obtain ⟨done, result, c', hdone, hall, hr, hr'⟩ := h c.save s t hst
  refine ⟨done, result, c'.restore, hdone, hall, ?_, ?_⟩
  · rw [exec_inOwnFrame, hr]
  · rw [exec_inOwnFrame, hr']

theorem region {m : Draw α σ Unit} {m' : Draw α τ Unit} (h : InStep source source' names m m')
    (f : Canvas α → Canvas α) : InStep source source' names
      (Draw.inOwnFrame do Draw.onCanvas f; m) (Draw.inOwnFrame do Draw.onCanvas f; m') :=
  ((InStep.onCanvas f).bind fun _ => h).inOwnFrame

end InStep

end Draw

namespace Diagram

open Draw (InStep)

variable [Scalar α] {source : Source σ} {source' : Source τ}

theorem drawRune_inStep (name : String) (side : α) :
    InStep source source' [name] (drawRune source name side) (drawRune source' name side) :=
  (InStep.lookup name).bind fun _ => .stroke _ _

theorem draw_inStep : ∀ (d : Diagram) (side : α),
    InStep source source' d.leaves (d.draw source side) (d.draw source' side)
  | rune name, side => drawRune_inStep name side
  | solo shape inner, side => by
    refine (InStep.onCanvas (shape.enter side)).bind fun _ => ?_
    exact (InStep.stroke _ _).bind fun _ => (draw_inStep inner _).region _
  | pair shape first second, side => by
    refine (InStep.onCanvas (shape.enter side)).bind fun _ => ?_
    refine (InStep.stroke _ _).bind fun _ => (InStep.stroke _ _).bind fun _ => ?_
    exact ((draw_inStep first _).region _).bind fun _ => (draw_inStep second _).region _

/-- Sources with the same answers for the runes of a diagram make the same drawing of it, and are
asked for the same first ones of its runes. -/
theorem renderOn_inStep {d : Diagram} {s : σ} {t : τ}
    (h : source.answers d.leaves s = source'.answers d.leaves t) (side : α) (c : Canvas α) :
    ∃ done result c', done <+: d.leaves ∧
      d.renderOn source side c s = (result, c', source.asked done s) ∧
      d.renderOn source' side c t = (result, c', source'.asked done t) := by
  change ∃ done result c', _ ∧ (d.render source side).exec c s = _ ∧
    (d.render source' side).exec c t = _
  unfold render
  split
  · obtain ⟨done, result, c', hdone, -, hs, ht⟩ := (draw_inStep d side).inOwnFrame c s t h
    exact ⟨done, result, c', hdone, hs, ht⟩
  · exact ⟨[], _, c, List.nil_prefix, rfl, rfl⟩

/-- The names that a drawing looks up are the first of its runes'. -/
theorem renderOn_asks (source : Source σ) (d : Diagram) (side : α) (c : Canvas α) (s : σ) :
    ∃ done, done <+: d.leaves ∧ (d.renderOn source side c s).2.2 = source.asked done s := by
  have h : source.answers d.leaves s = source.answers d.leaves s := rfl
  obtain ⟨done, result, c', hdone, hs, -⟩ := renderOn_inStep h side c
  exact ⟨done, hdone, by rw [hs]⟩

/-- Sources with the same answers for the runes of a diagram make the same drawing of it. -/
theorem renderOn_congr {d : Diagram} {s : σ} {t : τ}
    (h : source.answers d.leaves s = source'.answers d.leaves t) (side : α) (c : Canvas α) :
    (d.renderOn source side c s).1 = (d.renderOn source' side c t).1 ∧
      (d.renderOn source side c s).2.1 = (d.renderOn source' side c t).2.1 := by
  obtain ⟨done, result, c', -, hs, ht⟩ := renderOn_inStep h side c
  rw [hs, ht]
  exact ⟨rfl, rfl⟩

end Diagram

end MagicCircle
