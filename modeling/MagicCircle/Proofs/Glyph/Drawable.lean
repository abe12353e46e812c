import MagicCircle.Glyph.Drawable
import MagicCircle.Proofs.Double.Unit

/-!
# What a glyph is refused for

A glyph passes the check exactly if it can be drawn (`Glyph.flaw?_eq_none_iff`); the flaw found else
is that of its first stroke that cannot be drawn (`Glyph.flaw?_eq_some_iff`).
-/

namespace MagicCircle

namespace Glyph

open Double (inUnit_iff)

variable {stroke : List (Point Float)} {strokes : List (List (Point Float))} {flaw : Flaw}
  {name text : String} {g : Glyph}

theorem outside_iff {p : Point Float} : (!inUnit p.x || !inUnit p.y) = true ↔ ¬ p.InUnitSquare := by
  rw [← Bool.not_and, Bool.not_eq_true', ← Bool.not_eq_true, Bool.and_eq_true, inUnit_iff, inUnit_iff]
  exact not_congr ⟨fun h => ⟨h.1, h.2⟩, fun h => ⟨h.x, h.y⟩⟩

theorem strokeFlaw?_eq_none_iff : strokeFlaw? stroke = none ↔ DrawableStroke stroke := by
  unfold strokeFlaw?
  split_ifs with hempty houtside
  · exact iff_of_false nofun fun h => h.nonempty (List.isEmpty_iff.1 hempty)
  · obtain ⟨p, hp, hout⟩ := List.any_eq_true.1 houtside
    exact iff_of_false nofun fun h => outside_iff.1 hout (h.inside p hp)
  · refine iff_of_true rfl ⟨fun h => hempty (List.isEmpty_iff.2 h), fun p hp => ?_⟩
    by_contra hout
    exact houtside (List.any_eq_true.2 ⟨p, hp, outside_iff.2 hout⟩)

theorem strokeFlaw?_eq_some_iff : strokeFlaw? stroke = some flaw ↔
    stroke = [] ∧ flaw = .emptyStroke ∨
      (∃ p ∈ stroke, ¬ p.InUnitSquare) ∧ flaw = .outsideUnitSquare := by
  unfold strokeFlaw?
  split_ifs with hempty houtside
  · have hnil := List.isEmpty_iff.1 hempty
    simp [hnil, eq_comm]
  · obtain ⟨p, hp, hout⟩ := List.any_eq_true.1 houtside
    have hmem : ∃ p ∈ stroke, ¬ p.InUnitSquare := ⟨p, hp, outside_iff.1 hout⟩
    have hne : stroke ≠ [] := List.ne_nil_of_mem hp
    simp [hmem, hne, eq_comm]
  · refine iff_of_false nofun ?_
    rintro (⟨rfl, -⟩ | ⟨⟨p, hp, hout⟩, -⟩)
    · exact hempty rfl
    · exact houtside (List.any_eq_true.2 ⟨p, hp, outside_iff.2 hout⟩)

theorem flaw?_eq_none_iff : g.flaw? = none ↔ g.Drawable := by
  unfold flaw?
  split_ifs with hempty
  · exact iff_of_false nofun fun h => h.nonempty (List.isEmpty_iff.1 hempty)
  · rw [List.findSome?_eq_none_iff]
    refine ⟨fun h => ⟨fun hnil => hempty (List.isEmpty_iff.2 hnil), fun s hs => ?_⟩, fun h s hs => ?_⟩
    · exact strokeFlaw?_eq_none_iff.1 (h s hs)
    · exact strokeFlaw?_eq_none_iff.2 (h.strokes s hs)

theorem flaw?_eq_some_iff : g.flaw? = some flaw ↔ Flawed g.strokes flaw := by
  unfold flaw?
  split_ifs with hempty
  · rw [List.isEmpty_iff] at hempty
    rw [hempty]
    refine ⟨fun h => ?_, fun h => ?_⟩
    · cases h
      exact .noStrokes
    · generalize hs : ([] : List (List (Point Float))) = strokes at h
      cases h with
      | noStrokes => rfl
      | _ => simp at hs
  · rw [List.findSome?_eq_some_iff]
    refine ⟨fun ⟨before, stroke, after, hsplit, hstroke, hbefore⟩ => ?_, fun h => ?_⟩
    · have hdrawn (s) (hs : s ∈ before) : DrawableStroke s := strokeFlaw?_eq_none_iff.1 (hbefore s hs)
      rw [hsplit]
      obtain ⟨rfl, rfl⟩ | ⟨⟨p, hp, hout⟩, rfl⟩ := strokeFlaw?_eq_some_iff.1 hstroke
      · exact .emptyStroke hdrawn
      · exact .outsideUnitSquare hdrawn hp hout
    · generalize hs : g.strokes = strokes at h hempty
      cases h with
      | noStrokes => exact absurd rfl hempty
      | @emptyStroke before after hbefore =>
        exact ⟨before, [], after, rfl, rfl, fun s hs => strokeFlaw?_eq_none_iff.2 (hbefore s hs)⟩
      | @outsideUnitSquare before after stroke p hbefore hp hout =>
        exact ⟨before, stroke, after, rfl, strokeFlaw?_eq_some_iff.2 (.inr ⟨⟨p, hp, hout⟩, rfl⟩),
          fun s hs => strokeFlaw?_eq_none_iff.2 (hbefore s hs)⟩

theorem validate_eq_ok_iff {g' : Glyph} : g.validate name = .ok g' ↔ g' = g ∧ g.Drawable := by
  rw [← flaw?_eq_none_iff]
  unfold validate
  rcases g.flaw? with _ | flaw <;> simp [eq_comm]

theorem validate_eq_error_iff {e : GlyphError} : g.validate name = .error e ↔
    ∃ flaw, Flawed g.strokes flaw ∧ e = .malformed name flaw := by
  simp only [← flaw?_eq_some_iff]
  unfold validate
  rcases g.flaw? with _ | flaw <;> simp [eq_comm]

theorem decodeWith_eq_ok_iff {decoder : Decoder} :
    decodeWith decoder name text = .ok g ↔ decoder text = .ok g.strokes ∧ g.Drawable := by
  unfold decodeWith
  rcases decoder text with reason | strokes
  · simp
  · dsimp only
    rw [validate_eq_ok_iff, Except.ok.injEq]
    constructor
    · rintro ⟨rfl, hg⟩
      exact ⟨rfl, hg⟩
    · rintro ⟨rfl, hg⟩
      exact ⟨rfl, hg⟩

end Glyph

end MagicCircle
