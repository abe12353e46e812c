import MagicCircle.Drawing.Failure
import MagicCircle.Proofs.Drawing.Steps
import Mathlib.Tactic.SplitIfs

/-!
# What a drawing fails with

Whatever a drawing fails with arises from one of its runes, from a refused stroke or from its side
(`Diagram.arises_of_renderOn`). `Draw.FailsWith` carries this from the steps to the whole drawing.
-/

namespace MagicCircle

variable {α σ β γ : Type} {P : DrawError α → Prop}

/-- Whatever the step fails with has the property. -/
def Draw.FailsWith (P : DrawError α → Prop) (m : Draw α σ β) : Prop :=
  ∀ c s e, (m.exec c s).1 = .error e → P e

namespace Draw.FailsWith

theorem bind {m : Draw α σ β} {f : β → Draw α σ γ} (hm : m.FailsWith P)
    (hf : ∀ b, (f b).FailsWith P) : (m >>= f).FailsWith P := by
  intro c s e h
  rcases hr : m.exec c s with ⟨e' | b, c', s'⟩
  · rw [exec_bind_error hr] at h
    cases h
    exact hm c s e (by rw [hr])
  · rw [exec_bind_ok hr] at h
    exact hf b c' s' e h

theorem onCanvas (f : Canvas α → Canvas α) : (Draw.onCanvas f : Draw α σ Unit).FailsWith P :=
  fun _ _ _ h => nomatch h

theorem stroke {fail : Rejection → DrawError α} (h : ∀ number, P (fail (.ofStroke number)))
    (k : Canvas α → Mark α) : (Draw.stroke fail k : Draw α σ Unit).FailsWith P := by
  intro c s e he
  rw [exec_stroke] at he
  unfold Canvas.stroke at he
  split_ifs at he
  cases he
  exact h (c.strokes + 1)

theorem lookup {source : Source σ} {name : String}
    (h : ∀ s e, (source name s).1 = .error e → P (.leaf name e)) :
    (Draw.lookup source name : Draw α σ Glyph).FailsWith P := by
  intro c s e he
  rw [exec_lookup] at he
  rcases hs : source name s with ⟨e' | g, t⟩ <;> rw [hs] at he <;> cases he
  exact h s e' (by rw [hs])

theorem inOwnFrame {m : Draw α σ Unit} (h : m.FailsWith P) : (Draw.inOwnFrame m).FailsWith P :=
  fun c s e he => h c.save s e he

end Draw.FailsWith

open DrawError (Arises)

variable [Scalar α] {source : Source σ}

theorem Diagram.draw_failsWith {names : List String} : ∀ (d : Diagram) (side : α),
    (∀ name ∈ d.leaves, name ∈ names) → (d.draw source side).FailsWith (Arises source names)
  | rune name, side, hd => by
    have hname := hd name (.head _)
    rw [draw, drawRune]
    exact .bind (.lookup fun _ _ h => .leaf hname h) fun _ => .stroke (.glyph · hname) _
  | solo shape inner, side, hd => by
    rw [draw]
    refine .bind (.onCanvas _) fun _ => .bind (.stroke .surface _) fun _ => .inOwnFrame ?_
    exact .bind (.onCanvas _) fun _ => draw_failsWith inner _ hd
  | pair shape first second, side, hd => by
    rw [draw]
    refine .bind (.onCanvas _) fun _ => .bind (.stroke .surface _) fun _ =>
      .bind (.stroke .surface _) fun _ => .bind (.inOwnFrame ?_) fun _ => .inOwnFrame ?_
    · exact .bind (.onCanvas _) fun _ =>
        draw_failsWith first _ fun name h => hd name (List.mem_append_left _ h)
    · exact .bind (.onCanvas _) fun _ =>
        draw_failsWith second _ fun name h => hd name (List.mem_append_right _ h)

theorem Diagram.arises_of_renderOn {d : Diagram} {side : α} {c : Canvas α} {s : σ}
    {e : DrawError α} (h : (d.renderOn source side c s).1 = .error e) :
    Arises source d.leaves e := by
  unfold renderOn render at h
  split_ifs at h
  · exact (draw_failsWith d side fun _ h => h).inOwnFrame c s e h
  · cases h
    exact .invalidSide side

end MagicCircle
