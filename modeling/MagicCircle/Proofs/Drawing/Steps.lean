import MagicCircle.Drawing.Basic

/-!
# Taking drawing steps

What a step comes to on a canvas and a state of the source (`Draw.exec`), for each way a step is
made.
-/

namespace MagicCircle

variable {α σ β γ : Type}

namespace Draw

/-- What a step comes to, with the canvas and the source's state after it. -/
def exec (m : Draw α σ β) (c : Canvas α) (s : σ) : Except (DrawError α) β × Canvas α × σ :=
  m.run.run (c, s)

theorem exec_ext {m m' : Draw α σ β} (h : ∀ c s, m.exec c s = m'.exec c s) : m = m' :=
  funext fun s => h s.1 s.2

variable {c c' : Canvas α} {s s' : σ} {m : Draw α σ β} {f : β → Draw α σ γ}

theorem exec_bind_ok {b : β} (h : m.exec c s = (.ok b, c', s')) :
    (m >>= f).exec c s = (f b).exec c' s' := by
  change m (c, s) = _ at h
  change (match m (c, s) with | (r, t) => ExceptT.bindCont f r t) = _
  rw [h]
  rfl

theorem exec_bind_error {e : DrawError α} (h : m.exec c s = (.error e, c', s')) :
    (m >>= f).exec c s = (.error e, c', s') := by
  change m (c, s) = _ at h
  change (match m (c, s) with | (r, t) => ExceptT.bindCont f r t) = _
  rw [h]
  rfl

theorem exec_stroke (fail : Rejection → DrawError α) (k : Canvas α → Mark α) :
    (stroke fail k : Draw α σ Unit).exec c s =
      match c.stroke (k c) with
      | .ok c' => (.ok (), c', s)
      | .error r => (.error (fail r), c, s) := rfl

theorem exec_lookup (source : Source σ) (name : String) :
    (lookup source name : Draw α σ Glyph).exec c s =
      match source name s with
      | (.ok g, t) => (.ok g, c, t)
      | (.error e, t) => (.error (.leaf name e), c, t) := by
  change (match source name s with
    | (.ok g, t) => (Except.ok g, (c, t))
    | (.error e, t) => (Except.error (DrawError.leaf name e), (c, t))) = _
  rcases source name s with ⟨_ | _, t⟩ <;> rfl

theorem exec_lookup_resolved {source : Source σ} {name : String} {g : Glyph}
    (h : (source name s).1 = .ok g) :
    (lookup source name : Draw α σ Glyph).exec c s = (.ok g, c, (source name s).2) := by
  have h' : source name s = (.ok g, (source name s).2) := Prod.ext h rfl
  rw [exec_lookup, h']

theorem exec_inOwnFrame (m : Draw α σ Unit) :
    (inOwnFrame m).exec c s =
      ((m.exec c.save s).1, (m.exec c.save s).2.1.restore, (m.exec c.save s).2.2) := rfl

end Draw

end MagicCircle
