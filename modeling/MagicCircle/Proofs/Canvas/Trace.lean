import MagicCircle.Canvas.Trace
import MagicCircle.Proofs.Canvas.Replay

/-!
# Strokes along a log

A canvas that has come by more strokes (`Canvas.Leaves`): what was added to its log tells where they
were made, and with which frames the canvas was left.
-/

namespace MagicCircle

variable {α : Type} [Scalar α]

theorem Frames.traces_append (ops' : List (Op α)) : ∀ (ops : List (Op α)) (s : Frames α),
    s.traces (ops ++ ops') = s.traces ops ++ (ops.foldl Frames.step s).traces ops'
  | [], _ => rfl
  | op :: ops, s => by
    rw [List.cons_append, traces, traces, traces_append ops' ops, List.foldl_cons,
      List.append_assoc]

/-- The second canvas is the first one after operations that left the strokes. -/
structure Canvas.Leaves (c c' : Canvas α) (ts : List (Trace α)) : Prop where
  limit : c'.limit = c.limit
  ops : ∃ ops, c'.ops.toList = c.ops.toList ++ ops ∧ c'.frames = ops.foldl Frames.step c.frames ∧
    c.frames.traces ops = ts

namespace Canvas.Leaves

variable {c c' c'' : Canvas α} {ts ts' : List (Trace α)}

theorem refl (c : Canvas α) : c.Leaves c [] := ⟨rfl, [], by simp, rfl, rfl⟩

theorem trans (h : c.Leaves c' ts) (h' : c'.Leaves c'' ts') : c.Leaves c'' (ts ++ ts') := by
  obtain ⟨ops, hops, hf, ht⟩ := h.ops
  obtain ⟨ops', hops', hf', ht'⟩ := h'.ops
  refine ⟨h'.limit.trans h.limit, ops ++ ops', ?_, ?_, ?_⟩
  · rw [hops', hops, List.append_assoc]
  · rw [hf', hf, List.foldl_append]
  · rw [Frames.traces_append, ht, ← hf, ht']

theorem apply (c : Canvas α) (op : Op α) :
    c.Leaves (c.apply op) (op.mark?.map (Trace.mk c.frame)).toList := by
  refine ⟨limit_apply .., [op], ?_, ?_, ?_⟩
  · rw [ops_apply, Array.toList_push]
  · exact frames_apply ..
  · rw [Frames.traces, Frames.traces, List.append_nil]
    rfl

end Canvas.Leaves

end MagicCircle
