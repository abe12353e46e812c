import MagicCircle.Proofs.Exact.Plan

/-!
# Apart and inside

What follows for a diagram that is placed: all its strokes lie in its square, no two of its glyphs
meet, and with every shape around it a glyph shrinks to four fifths at most.
-/

namespace MagicCircle

theorem Trace.glyphs_cons_border {t : Trace ℝ} {b : Border ℝ} (ht : t.mark = b.mark)
    (ts : List (Trace ℝ)) : glyphs (t :: ts) = glyphs ts := by
  refine List.filter_cons_of_neg ?_
  rw [ht]
  rcases b <;> simp [Border.mark, Mark.isGlyph]

theorem Trace.glyphs_cons_line (frame : Frame ℝ) (l : Segment ℝ) (ts : List (Trace ℝ)) :
    glyphs (⟨frame, .line l⟩ :: ts) = glyphs ts :=
  List.filter_cons_of_neg (by simp [Mark.isGlyph])

theorem Trace.glyphs_append (ts ts' : List (Trace ℝ)) :
    glyphs (ts ++ ts') = glyphs ts ++ glyphs ts' :=
  List.filter_append ..

theorem Trace.Shrunk.succ {t : Trace ℝ} {side side' : ℝ} {depth : Nat} (h : t.Shrunk side' depth)
    (hside : side' ≤ 4 / 5 * side) : t.Shrunk side (depth + 1) := by
  obtain ⟨square, hfills, hpos, hle⟩ := h
  refine ⟨square, hfills, hpos, ?_⟩
  have hside' : side' ≤ 0.8 * side := by linarith
  calc square.size ≤ 0.8 ^ depth * side' := hle
    _ ≤ 0.8 ^ depth * (0.8 * side) := by gcongr
    _ = 0.8 ^ (depth + 1) * side := by ring

theorem forall₂_shrunk_succ {depths : List Nat} {ts : List (Trace ℝ)} {side side' : ℝ}
    (h : List.Forall₂ (Trace.Shrunk side') depths ts) (hside : side' ≤ 4 / 5 * side) :
    List.Forall₂ (Trace.Shrunk side) (depths.map (· + 1)) ts :=
  List.forall₂_map_left_iff.2 (h.imp fun _ _ ht => ht.succ hside)

namespace Placed

variable {d : Diagram} {q : Region ℝ} {ts : List (Trace ℝ)}

theorem points_subset (h : Placed d q ts) : ∀ t ∈ ts, t.points ⊆ q.points := by
  induction h with
  | rune fills => simpa using fills.points.subset
  | solo _ within area lands _ ih =>
    rw [List.forall_mem_cons]
    exact ⟨within, fun t ht => ((ih t ht).trans lands.inside).trans area⟩
  | pair _ within area line within' lands lands' _ _ _ _ ih ih' =>
    rw [List.forall_mem_cons, List.forall_mem_cons, List.forall_mem_append]
    exact ⟨within, within', fun t ht => ((ih t ht).trans lands.inside).trans area,
      fun t ht => ((ih' t ht).trans lands'.inside).trans area⟩

theorem pairwise_disjoint (h : Placed d q ts) :
    (Trace.glyphs ts).Pairwise fun t t' => Disjoint t.points t'.points := by
  induction h with
  | rune fills => exact List.Pairwise.filter _ (List.pairwise_singleton ..)
  | solo mark _ _ _ _ ih => rwa [Trace.glyphs_cons_border mark]
  | pair mark _ _ line _ _ _ disjoint _ rest rest' ih ih' =>
    rw [Trace.glyphs_cons_border mark, line, Trace.glyphs_cons_line, Trace.glyphs_append,
      List.pairwise_append]
    refine ⟨ih, ih', fun t ht t' ht' => ?_⟩
    exact disjoint.mono (rest.points_subset t (List.mem_of_mem_filter ht))
      (rest'.points_subset t' (List.mem_of_mem_filter ht'))

theorem shrunk (h : Placed d q ts) (hq : 0 < q.size) :
    List.Forall₂ (Trace.Shrunk q.size) d.leafDepths (Trace.glyphs ts) := by
  induction h with
  | @rune _ square t fills =>
    obtain ⟨strokes, hmark⟩ := fills.mark
    have hglyphs : Trace.glyphs [t] = [t] := by simp [Trace.glyphs, hmark, Mark.isGlyph]
    rw [hglyphs]
    exact .cons ⟨square, fills, hq, by simp⟩ .nil
  | @solo shape _ square _ _ _ mark _ _ lands _ ih =>
    have hfits := shape.solo_fits hq
    rw [Trace.glyphs_cons_border mark]
    exact forall₂_shrunk_succ (ih (lands.size ▸ hfits.pos)) (lands.size ▸ hfits.le)
  | @pair shape _ _ square _ _ _ _ _ _ mark _ _ line _ lands lands' _ _ _ _ ih ih' =>
    obtain ⟨hfits, hfits'⟩ := shape.pair_fits hq
    rw [Trace.glyphs_cons_border mark, line, Trace.glyphs_cons_line, Trace.glyphs_append,
      Diagram.leafDepths, List.map_append]
    have hfirst := forall₂_shrunk_succ (ih (lands.size ▸ hfits.pos)) (lands.size ▸ hfits.le)
    have hsecond :=
      forall₂_shrunk_succ (ih' (lands'.size ▸ hfits'.pos)) (lands'.size ▸ hfits'.le)
    exact List.rel_append hfirst hsecond

end Placed

end MagicCircle
