import MagicCircle.Proofs.Glyph.Drawable
import MagicCircle.Proofs.Json.Recovery
import MagicCircle.Proofs.Json.RoundTrip

/-!
# Glyphs that are written and read

A glyph that can be drawn is read from its own text as one that can be drawn, stroke by stroke and
point by point (`Glyph.decode_encode`). The reader rounds more than once, so a coordinate with many
digits may come back as its neighbour (`Glyph.decode_encode_neighbour`).
-/

namespace MagicCircle

open Json (Value)

/-- Reading all elements of a mapped list. -/
theorem mapM_map_forall₂ {α β γ : Type} {f : β → Option γ} {g : α → β} {R : α → γ → Prop} :
    ∀ {as : List α}, (∀ a ∈ as, ∃ c, f (g a) = some c ∧ R a c) →
      ∃ cs, (as.map g).mapM f = some cs ∧ List.Forall₂ R as cs
  | [], _ => ⟨[], rfl, .nil⟩
  | a :: as, h => by
    obtain ⟨c, hc, hR⟩ := h a (.head _)
    obtain ⟨cs, hcs, hRs⟩ := mapM_map_forall₂ fun b hb => h b (.tail _ hb)
    refine ⟨c :: cs, ?_, .cons hR hRs⟩
    rw [List.map_cons, List.mapM_cons, hc, hcs]
    rfl

theorem forall_mem_of_forall₂ {α β : Type} {R : α → β → Prop} {P : β → Prop} {as : List α}
    {bs : List β} (h : List.Forall₂ R as bs) (hP : ∀ a ∈ as, ∀ b, R a b → P b) : ∀ b ∈ bs, P b := by
  induction h with
  | nil => exact nofun
  | cons hab _ ih =>
    intro b hb
    obtain _ | ⟨_, hb⟩ := hb
    · exact hP _ (.head _) _ hab
    · exact ih (fun a ha => hP a (.tail _ ha)) b hb

theorem ne_nil_of_forall₂ {α β : Type} {R : α → β → Prop} {as : List α} {bs : List β}
    (h : List.Forall₂ R as bs) (has : as ≠ []) : bs ≠ [] := by
  rintro rfl
  exact has (List.forall₂_nil_right_iff.1 h)

namespace Glyph

open Double (InUnit)

variable {g : Glyph}

/-- A coordinate is written as a legible number that is read as what it may come back as. -/
theorem float?_ofFloat {x : Float} (hx : InUnit x) : (Value.ofFloat x).Legible ∧
    ∃ y, float? (Value.ofFloat x) = some y ∧ Double.Recovered x y := by
  obtain ⟨n, y, hn, hlegible, hread, hrecovered⟩ := Double.exists_recovered hx
  rw [Value.ofFloat, hn]
  exact ⟨hlegible, y, hread, hrecovered⟩

theorem legible_point {p : Point Float} (h : p.InUnitSquare) : p.toJson.Legible :=
  ⟨rfl, (float?_ofFloat h.x).1, rfl, (float?_ofFloat h.y).1, trivial⟩

theorem legible_array {α : Type} {f : α → Value} : ∀ {as : List α}, (∀ a ∈ as, (f a).Legible) →
    (Value.array (as.map f)).Legible
  | [], _ => trivial
  | a :: _, h => ⟨h a (.head _), legible_array fun b hb => h b (.tail _ hb)⟩

theorem legible_toJson (h : g.Drawable) : g.toJson.Legible :=
  ⟨rfl, legible_array fun s hs => legible_array fun p hp => legible_point ((h.strokes s hs).inside p hp),
    trivial⟩

theorem point?_toJson {p : Point Float} (h : p.InUnitSquare) :
    ∃ p', point? p.toJson = some p' ∧ p.Recovered p' := by
  obtain ⟨-, x, hx, hrecovered⟩ := float?_ofFloat h.x
  obtain ⟨-, y, hy, hrecovered'⟩ := float?_ofFloat h.y
  have hfields : fields? ["x", "y"] p.toJson = some [.ofFloat p.x, .ofFloat p.y] := rfl
  refine ⟨⟨x, y⟩, ?_, hrecovered, hrecovered'⟩
  rw [point?, hfields]
  dsimp only
  rw [hx, hy]
  rfl

theorem strokes?_toJson (h : g.Drawable) :
    ∃ strokes, strokes? g.toJson = some strokes ∧ g.Recovered ⟨strokes⟩ := by
  have hfields : fields? ["strokes"] g.toJson =
      some [.array (g.strokes.map fun s => .array (s.map Point.toJson))] := rfl
  rw [strokes?, hfields]
  exact mapM_map_forall₂ fun s hs =>
    mapM_map_forall₂ fun p hp => point?_toJson ((h.strokes s hs).inside p hp)

/-- What comes back of a glyph that can be drawn can be drawn. -/
theorem Recovered.drawable {g' : Glyph} (hg : g.Recovered g') (h : g.Drawable) : g'.Drawable := by
  refine ⟨ne_nil_of_forall₂ hg h.nonempty, forall_mem_of_forall₂ hg fun s hs s' hss' => ?_⟩
  exact ⟨ne_nil_of_forall₂ hss' (h.strokes s hs).nonempty,
    forall_mem_of_forall₂ hss' fun p _ p' hpp' => ⟨hpp'.x.inUnit, hpp'.y.inUnit⟩⟩

/-- What the strokes are read as is what the text is decoded to. -/
theorem decode_encode_of {strokes : List (List (Point Float))} (name : String) (h : g.Drawable)
    (hstrokes : strokes? g.toJson = some strokes) (h' : Drawable ⟨strokes⟩) :
    decode name g.encode = .ok ⟨strokes⟩ := by
  refine decodeWith_eq_ok_iff.2 ⟨?_, h'⟩
  rw [json, encode, Value.text, String.toList_ofList, Json.read?_print (legible_toJson h)]
  dsimp only
  rw [hstrokes]

/-- A glyph that can be drawn is read from its text, and every coordinate comes back near, or the same
if its numeral is short. -/
theorem decode_encode (name : String) (h : g.Drawable) :
    ∃ g', decode name g.encode = .ok g' ∧ g.Recovered g' := by
  obtain ⟨strokes, hstrokes, hrecovered⟩ := strokes?_toJson h
  exact ⟨⟨strokes⟩, decode_encode_of name h hstrokes (hrecovered.drawable h), hrecovered⟩

/-- A glyph with a whole, a decimal and a negative zero among its coordinates. -/
theorem decode_encode_slope :
    (⟨[[⟨-0.0, 1⟩, ⟨0.25, 0.1⟩]]⟩ : Glyph).Drawable ∧
      ∃ g', decode "slope" (encode ⟨[[⟨-0.0, 1⟩, ⟨0.25, 0.1⟩]]⟩) = .ok g' ∧
        (⟨[[⟨-0.0, 1⟩, ⟨0.25, 0.1⟩]]⟩ : Glyph).Recovered g' := by
  have hdrawable : (⟨[[⟨-0.0, 1⟩, ⟨0.25, 0.1⟩]]⟩ : Glyph).Drawable :=
    flaw?_eq_none_iff.1 (by decide +kernel)
  exact ⟨hdrawable, decode_encode "slope" hdrawable⟩

/-- The greatest double below one is read as one: its sixteen digits are rounded to a word, and the
quotient of the word is rounded again. -/
theorem float?_greatest_below_one :
    float? (Value.ofFloat 0.9999999999999999) = some 1 := by
  have hnumeral : Json.style.numeral? 0.9999999999999999 =
      some ⟨false, [0], List.replicate 16 9, none⟩ := by decide +kernel
  have hfraction : (⟨false, [0], List.replicate 16 9, none⟩ : Decimal.Numeral).IsFraction
      9999999999999999 16 :=
    ⟨⟨by decide, by decide, nofun, fun _ => rfl⟩, rfl, rfl, le_rfl, by decide, by decide, by decide,
      by decide, by decide⟩
  rw [Value.ofFloat, hnumeral]
  exact (Json.float?_isFraction hfraction).trans (by decide +kernel)

theorem decode_encode_neighbour :
    (⟨[[⟨0.9999999999999999, 0⟩]]⟩ : Glyph).Drawable ∧
      decode "a" (encode ⟨[[⟨0.9999999999999999, 0⟩]]⟩) = .ok ⟨[[⟨1, 0⟩]]⟩ ∧
      (0.9999999999999999 : Float).toBits ≠ (1 : Float).toBits := by
  have hdrawable : (⟨[[⟨0.9999999999999999, 0⟩]]⟩ : Glyph).Drawable :=
    flaw?_eq_none_iff.1 (by decide +kernel)
  have hzero : float? (Value.ofFloat 0) = some 0 := Double.float?_zero .positive
  refine ⟨hdrawable, decode_encode_of "a" hdrawable ?_ (flaw?_eq_none_iff.1 (by decide +kernel)),
    by decide +kernel⟩
  have hpoint : point? (Point.toJson ⟨0.9999999999999999, 0⟩) = some ⟨1, 0⟩ := by
    have hfields : fields? ["x", "y"] (Point.toJson ⟨0.9999999999999999, 0⟩) =
        some [.ofFloat 0.9999999999999999, .ofFloat 0] := rfl
    rw [point?, hfields]
    dsimp only
    rw [float?_greatest_below_one, hzero]
    rfl
  have hstroke : stroke? (.array ([⟨0.9999999999999999, 0⟩].map Point.toJson)) = some [⟨1, 0⟩] := by
    rw [List.map_singleton, stroke?, List.mapM_cons, hpoint]
    rfl
  have hfields : fields? ["strokes"] (toJson ⟨[[⟨0.9999999999999999, 0⟩]]⟩) =
      some [.array [.array ([⟨0.9999999999999999, 0⟩].map Point.toJson)]] := rfl
  rw [strokes?, hfields]
  dsimp only
  rw [List.mapM_cons, hstroke]
  rfl

end Glyph

end MagicCircle
