import MagicCircle.Canvas.Request
import MagicCircle.Proofs.Canvas.Replay
import Mathlib.Tactic.SplitIfs

/-!
# The log accounts for the canvas

`Canvas.serveAll_accounts`: whatever a blank canvas is asked for, its log has the requests that were
granted, and replaying the log leads to the frames of the canvas. What is refused is every stroke
after the first ones, as many as the limit says, and a refusal leaves no trace.

`Canvas.serve_eq` says all that one request does. Two invariants go along a run: `Canvas.Accounts` for
the log, `Canvas.Served` for the number of strokes.
-/

namespace MagicCircle

variable {α : Type}

namespace Canvas

namespace Request

theorem granted_append (rs' : List (Request α)) (answers' : List (Except Rejection Unit)) :
    ∀ (rs : List (Request α)) (answers : List (Except Rejection Unit)),
      answers.length = rs.length → granted (rs ++ rs') (answers ++ answers') =
        granted rs answers ++ granted rs' answers'
  | [], [], _ => rfl
  | r :: _, .ok () :: _, h => congrArg (r :: ·) (granted_append rs' answers' _ _ (Nat.succ.inj h))
  | _ :: rs, .error _ :: answers, h =>
    granted_append rs' answers' rs answers (Nat.succ.inj h)

theorem countP_isMark_op [Scalar α] (frame : Frame α) (r : Request α) :
    [r.op frame].countP Op.isMark = [r].countP isStroke := by
  cases r <;> rfl

end Request

variable [Scalar α] {c : Canvas α} {rs : List (Request α)} {limit : Option Nat}

/-- A request for a stroke is refused by a canvas that takes no more of them, which then stays as it
is. Any other request is granted and leaves its entry. -/
theorem serve_eq (c : Canvas α) (r : Request α) : c.serve r =
    if r.isStroke = true ∧ c.accepts = false then (.error (.ofStroke (c.strokes + 1)), c)
    else (.ok (), c.apply (r.op c.frame)) := by
  rcases h : c.accepts <;> rcases r <;> simp [serve, attempt, stroke, h, Request.isStroke] <;> rfl

theorem serve_of_error {r : Request α} {e : Rejection} (h : (c.serve r).1 = .error e) :
    (c.serve r).2 = c := by
  rw [serve_eq] at h ⊢
  split_ifs at h ⊢
  rfl

theorem length_serveAll : ∀ (c : Canvas α) (rs : List (Request α)),
    (c.serveAll rs).1.length = rs.length
  | _, [] => rfl
  | c, r :: rs => congrArg (· + 1) (length_serveAll (c.serve r).2 rs)

theorem serveAll_append (rs' : List (Request α)) : ∀ (c : Canvas α) (rs : List (Request α)),
    c.serveAll (rs ++ rs') = ((c.serveAll rs).1 ++ ((c.serveAll rs).2.serveAll rs').1,
      ((c.serveAll rs).2.serveAll rs').2)
  | _, [] => rfl
  | c, r :: rs => by
    simp only [List.cons_append, serveAll, serveAll_append rs' (c.serve r).2 rs]

theorem serveAll_concat (c : Canvas α) (rs : List (Request α)) (r : Request α) :
    c.serveAll (rs ++ [r]) = ((c.serveAll rs).1 ++ [((c.serveAll rs).2.serve r).1],
      ((c.serveAll rs).2.serve r).2) :=
  serveAll_append [r] c rs

/-! ## The number of strokes -/

/-- The canvas after requests, as far as its answers depend on them. -/
structure Served (limit : Option Nat) (rs : List (Request α)) (c : Canvas α) : Prop where
  limit_eq : c.limit = limit
  strokes_eq : ∀ k, limit = some k → c.strokes = min (rs.countP Request.isStroke) k

namespace Served

theorem answer_eq (h : Served limit rs c) (r : Request α) :
    (c.serve r).1 = r.answer limit (rs.countP Request.isStroke) := by
  rw [serve_eq, accepts, h.limit_eq]
  unfold Request.answer
  rcases limit with _ | k
  · simp
  have hstrokes := h.strokes_eq k rfl
  have hlt : c.strokes < k ↔ ¬ k ≤ rs.countP Request.isStroke := by omega
  simp only [hlt, decide_not, Bool.not_eq_false', decide_eq_true_eq]
  split_ifs with hr
  · rw [hstrokes, Nat.min_eq_right hr.2]
  · rfl

theorem serve (h : Served limit rs c) (r : Request α) :
    Served limit (rs ++ [r]) (c.serve r).2 := by
  rw [serve_eq]
  unfold accepts
  rw [h.limit_eq]
  split_ifs with hr
  · -- A refused stroke is one more that was asked for, but the limit was reached before it.
    refine ⟨h.limit_eq, fun k hk => ?_⟩
    obtain rfl := hk
    have hstrokes := h.strokes_eq k rfl
    have hfull : k ≤ c.strokes := by simpa using hr.2
    change c.strokes = _
    rw [List.countP_append]
    omega
  · refine ⟨(limit_apply ..).trans h.limit_eq, fun k hk => ?_⟩
    obtain rfl := hk
    have hstrokes := h.strokes_eq k rfl
    rw [strokes_apply, r.countP_isMark_op, List.countP_append]
    by_cases hs : r.isStroke = true
    · have hroom : c.strokes < k := by simpa [hs] using hr
      rw [List.countP_singleton, if_pos hs]
      omega
    · rw [List.countP_singleton, if_neg hs]
      exact hstrokes

theorem serveAll : ∀ (rs' : List (Request α)) {rs : List (Request α)} {c : Canvas α},
    Served limit rs c → Served limit (rs ++ rs') (c.serveAll rs').2
  | [], rs, c, h => by rwa [List.append_nil]
  | r :: rs', rs, c, h => by
    have hrest := serveAll rs' (h.serve r)
    rwa [List.append_assoc] at hrest

theorem of_blank (limit : Option Nat) (rs : List (Request α)) :
    Served limit rs ((blank limit).serveAll rs).2 := by
  have hblank : Served limit [] (blank limit : Canvas α) :=
    ⟨rfl, fun k _ => (Nat.zero_min k).symm⟩
  exact serveAll rs hblank

end Served

/-! ## The log -/

namespace Accounts

variable {granted : List (Request α)}

theorem blank (limit : Option Nat) : (Canvas.blank limit : Canvas α).Accounts [] :=
  ⟨rfl, rfl, rfl, fun before op after h => by simp [Canvas.blank] at h⟩

/-- The next entry is that of the next request granted. -/
theorem apply (h : c.Accounts granted) (r : Request α) :
    (c.apply (r.op c.frame)).Accounts (granted ++ [r]) := by
  have hframe : c.frame = (Frames.replay c.ops.toList).current := congrArg Frames.current h.frames
  have hframes : (c.apply (r.op c.frame)).frames =
      Frames.replay (c.apply (r.op c.frame)).ops.toList := by
    unfold Frames.replay
    rw [frames_apply, ops_apply, Array.toList_push, List.foldl_append, h.frames]
    rfl
  refine ⟨hframes, congrArg (fun f => f.saved.length) hframes, ?_, fun before op after hops => ?_⟩
  · rw [ops_apply, Array.size_push, h.size, List.length_append]
    rfl
  have hsize : c.ops.toList.length = granted.length := h.size
  rw [ops_apply, Array.toList_push] at hops
  obtain rfl | ⟨after, last, rfl⟩ := List.eq_nil_or_concat after
  · obtain ⟨rfl, hop⟩ := List.append_inj' hops rfl
    refine ⟨r, ?_, ?_⟩
    · rw [hsize, List.getElem?_append_right (Nat.le_refl _), Nat.sub_self]
      rfl
    · rw [← (List.cons.inj hop).1, hframe]
  · rw [List.concat_eq_append, ← List.cons_append, ← List.append_assoc] at hops
    obtain ⟨hbefore, -⟩ := List.append_inj' hops rfl
    obtain ⟨r', hr', hop⟩ := h.entry before op after hbefore
    exact ⟨r', by rw [List.getElem?_append_left (List.getElem?_eq_some_iff.1 hr').1, hr'], hop⟩

theorem serve (h : c.Accounts granted) (r : Request α) :
    (c.serve r).2.Accounts (granted ++ Request.granted [r] [(c.serve r).1]) := by
  rw [serve_eq]
  split_ifs
  · change c.Accounts (granted ++ [])
    rwa [List.append_nil]
  · exact h.apply r

theorem serveAll : ∀ (rs : List (Request α)) {granted : List (Request α)} {c : Canvas α},
    c.Accounts granted →
      (c.serveAll rs).2.Accounts (granted ++ Request.granted rs (c.serveAll rs).1)
  | [], granted, c, h => by
    change c.Accounts (granted ++ [])
    rwa [List.append_nil]
  | r :: rs, granted, c, h => by
    have hrest := serveAll rs (h.serve r)
    rwa [List.append_assoc, ← Request.granted_append _ _ _ _ rfl] at hrest

end Accounts

/-- A blank canvas answers requests as the limit says: it refuses every stroke after so many of them,
by the number of the first one refused, and is then as it was before the request. Its log accounts
for all the others and for its frames. -/
theorem serveAll_accounts (limit : Option Nat) (rs : List (Request α)) :
    let served := (blank limit).serveAll rs
    served.2.Accounts (Request.granted rs served.1) ∧ served.1.length = rs.length ∧
      ∀ before r after, rs = before ++ r :: after →
        let answer := r.answer limit (before.countP Request.isStroke)
        served.1[before.length]? = some answer ∧ ∀ e, answer = .error e →
          ((blank limit).serveAll (before ++ [r])).2 = ((blank limit).serveAll before).2 := by
  intro served
  refine ⟨(Accounts.blank limit).serveAll rs, length_serveAll _ rs, fun before r after hrs => ?_⟩
  intro answer
  have hanswer : (((blank limit).serveAll before).2.serve r).1 = answer :=
    (Served.of_blank limit before).answer_eq r
  refine ⟨?_, fun e he => ?_⟩
  · have hlength := length_serveAll (blank limit) before
    rw [show served = _ from congrArg (blank limit).serveAll hrs, serveAll_append,
      List.getElem?_append_right (Nat.le_of_eq hlength), hlength, Nat.sub_self, ← hanswer]
    rfl
  · rw [serveAll_concat]
    exact serve_of_error (hanswer.trans he)

end Canvas

end MagicCircle
