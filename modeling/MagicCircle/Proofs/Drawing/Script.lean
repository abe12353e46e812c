import MagicCircle.Drawing.Script
import MagicCircle.Proofs.Drawing.Steps

/-!
# A drawing performs its script

`Diagram.render_eq_perform`: on a side that can be drawn, drawing a diagram is performing its script
in a frame of its own. Whichever step fails, the frames that are left on the way out of the drawing
are those that the script has open at that point.

What carries the induction along the diagram is `Draw.Follows`: a step takes the same actions as a
piece of script, however many frames are open around it.
-/

namespace MagicCircle

variable {α σ : Type}

namespace Draw

variable {c c' : Canvas α} {s s' : σ} {m m' : Draw α σ Unit} {n : Nat}

theorem exec_leaving_ok (h : m.exec c s = (.ok (), c', s')) :
    (leaving n m).exec c s = (.ok (), c', s') := by
  dsimp only [exec, leaving, ExceptT.run, ExceptT.mk, StateT.run] at h ⊢
  rw [h]

theorem exec_leaving_error {e : DrawError α} (h : m.exec c s = (.error e, c', s')) :
    (leaving n m).exec c s = (.error e, c'.restores n, s') := by
  dsimp only [exec, leaving, ExceptT.run, ExceptT.mk, StateT.run] at h ⊢
  rw [h]

theorem leaving_zero (m : Draw α σ Unit) : leaving 0 m = m := by
  refine exec_ext fun c s => ?_
  rcases h : m.exec c s with ⟨e | _, c', s'⟩
  · exact exec_leaving_error h
  · exact exec_leaving_ok h

theorem leaving_bind (n : Nat) (m m' : Draw α σ Unit) :
    leaving n (m >>= fun _ => m') = leaving n m >>= fun _ => leaving n m' := by
  refine exec_ext fun c s => ?_
  rcases h : m.exec c s with ⟨e | _, c', s'⟩
  · rw [exec_leaving_error (exec_bind_error h), exec_bind_error (exec_leaving_error h)]
  rw [exec_bind_ok (exec_leaving_ok h)]
  rcases h' : m'.exec c' s' with ⟨e | _, c'', s''⟩
  · rw [exec_leaving_error ((exec_bind_ok h).trans h'), exec_leaving_error h']
  · rw [exec_leaving_ok ((exec_bind_ok h).trans h'), exec_leaving_ok h']

variable [Scalar α] {source : Source σ} {as bs : List (Action α)}

theorem perform_append (source : Source σ) (bs : List (Action α)) :
    ∀ (as : List (Action α)) (n : Nat), perform source n (as ++ bs) =
      perform source n as >>= fun _ => perform source (as.foldl Action.depth n) bs
  | [], n => (pure_bind ..).symm
  | a :: as, n => by
    rw [List.cons_append, perform, perform, bind_assoc]
    exact congrArg _ (funext fun _ => perform_append source bs as (a.depth n))

/-- The step takes the actions of the script and leaves as many frames open as there were. -/
structure Follows (source : Source σ) (m : Draw α σ Unit) (as : List (Action α)) : Prop where
  depth (n : Nat) : as.foldl Action.depth n = n
  leaving_eq (n : Nat) : leaving n m = perform source n as

namespace Follows

theorem single {a : Action α} (h : ∀ n, a.depth n = n) : Follows source (a.draw source) [a] :=
  ⟨h, fun _ => bind_pure_unit.symm⟩

theorem append (h : Follows source m as) (h' : Follows source m' bs) :
    Follows source (m >>= fun _ => m') (as ++ bs) := by
  refine ⟨fun n => by rw [List.foldl_append, h.depth, h'.depth], fun n => ?_⟩
  rw [leaving_bind, perform_append, h.depth, h.leaving_eq, h'.leaving_eq]

/-- The frame of a script's own is one more to leave when the step fails inside it. -/
theorem framed (h : Follows source m as) : Follows source (inOwnFrame m) (Action.framed as) := by
  refine ⟨fun n => ?_, fun n => exec_ext fun c s => ?_⟩
  · rw [Action.framed, List.foldl_cons, List.foldl_append, h.depth]
    rfl
  rw [Action.framed, perform, perform_append, Action.depth, h.depth, ← h.leaving_eq]
  have hsave : (leaving n (Action.save.draw source)).exec c s = (.ok (), c.save, s) := rfl
  rw [exec_bind_ok hsave]
  rcases hm : m.exec c.save s with ⟨e | _, c', s'⟩
  · have h' : (inOwnFrame m).exec c s = (.error e, c'.restore, s') := by rw [exec_inOwnFrame, hm]
    rw [exec_leaving_error h', exec_bind_error (exec_leaving_error hm)]
    rfl
  · have h' : (inOwnFrame m).exec c s = (.ok (), c'.restore, s') := by rw [exec_inOwnFrame, hm]
    rw [exec_leaving_ok h', exec_bind_ok (exec_leaving_ok hm)]
    rfl

theorem entering (shape : Shape) (side : α) :
    Follows source (onCanvas (shape.enter side)) (shape.entering side) := by
  rcases shape with _ | _ | t <;> exact ⟨fun _ => rfl, fun _ => rfl⟩

theorem border (b : Border α) :
    Follows source (stroke .surface fun _ => b.mark) [.border b] :=
  single (a := .border b) fun _ => rfl

theorem divider (line : Segment α) :
    Follows source (stroke .surface fun _ => .line line) [.divider line] :=
  single (a := .divider line) fun _ => rfl

theorem enteringRegion (shape : Shape) (region : Region α) :
    Follows source (onCanvas (shape.enterRegion region)) (shape.enteringRegion region) := by
  rcases shape with _ | _ | t <;> exact ⟨fun _ => rfl, fun _ => rfl⟩

theorem region (h : Follows source m as) (shape : Shape) (region : Region α) :
    Follows source (inOwnFrame do onCanvas (shape.enterRegion region); m)
      (Action.framed (shape.enteringRegion region ++ as)) :=
  ((enteringRegion shape region).append h).framed

end Follows

end Draw

namespace Diagram

open Draw (Follows perform)

variable [Scalar α]

theorem draw_follows (source : Source σ) : ∀ (d : Diagram) (side : α),
    Follows source (d.draw source side) (d.script side)
  | rune name, side => .single (a := .rune name side) fun _ => rfl
  | solo shape inner, side => by
    refine (Follows.entering shape side).append ?_
    refine (Follows.border (shape.solo side).border).append ?_
    exact (draw_follows source inner _).region shape _
  | pair shape first second, side => by
    refine (Follows.entering shape side).append ?_
    refine (Follows.border (shape.pair side).border).append ?_
    refine (Follows.divider (shape.pair side).divider).append ?_
    refine ((draw_follows source first _).region shape _).append ?_
    exact (draw_follows source second _).region shape _

/-- Drawing a diagram is performing its script in a frame of its own. -/
theorem render_eq_perform (source : Source σ) (d : Diagram) {side : α}
    (h : Scalar.usable side = true) :
    d.render source side = perform source 0 (Action.framed (d.script side)) := by
  rw [render, if_pos h, ← (draw_follows source d side).framed.leaving_eq, Draw.leaving_zero]

end Diagram

end MagicCircle
