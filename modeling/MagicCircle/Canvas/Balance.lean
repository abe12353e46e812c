import MagicCircle.Canvas.Basic

/-!
# Balanced logs

The saves and restores of a log are its brackets. A balanced log restores whatever it saves and
nothing else, so it can stand anywhere in a longer one.
-/

namespace MagicCircle

variable {α : Type}

namespace Op

def isSave : Op α → Bool
  | save => true
  | _ => false

def isRestore : Op α → Bool
  | restore => true
  | _ => false

def isMark : Op α → Bool
  | mark _ => true
  | _ => false

/-- How many frames are saved after the entry, where `n` were before it. -/
def depth (n : Nat) : Op α → Nat
  | save => n + 1
  | restore => n - 1
  | _ => n

end Op

/-- As many saves as restores, and nowhere more restores than saves so far. -/
structure Balanced (ops : List (Op α)) : Prop where
  closed : ops.countP Op.isSave = ops.countP Op.isRestore
  restores_le (n : Nat) : (ops.take n).countP Op.isRestore ≤ (ops.take n).countP Op.isSave

/-- How many frames are still saved after a log that restores none but its own. -/
def openFrames (ops : List (Op α)) : Nat := ops.countP Op.isSave - ops.countP Op.isRestore

namespace Balanced

variable {ops ops' : List (Op α)}

theorem nil : Balanced ([] : List (Op α)) := ⟨rfl, fun n => by simp⟩

/-- An entry that neither saves nor restores is balanced. -/
theorem single {op : Op α} (hs : op.isSave = false) (hr : op.isRestore = false) :
    Balanced [op] := by
  refine ⟨by simp [hs, hr], fun n => ?_⟩
  rcases n with _ | n <;> simp [hs, hr]

theorem append (h : Balanced ops) (h' : Balanced ops') : Balanced (ops ++ ops') := by
  refine ⟨?_, fun n => ?_⟩
  · rw [List.countP_append, List.countP_append, h.closed, h'.closed]
  · rw [List.take_append, List.countP_append, List.countP_append]
    exact Nat.add_le_add (h.restores_le n) (h'.restores_le _)

/-- A balanced log stays balanced inside a frame of its own. -/
theorem scope (h : Balanced ops) : Balanced (.save :: (ops ++ [.restore])) := by
  have hc := h.closed
  refine ⟨?_, fun n => ?_⟩
  · simp [List.countP_cons, Op.isSave, Op.isRestore, hc]
  rcases n with _ | n
  · simp
  have hops := h.restores_le n
  have hlast : (([.restore] : List (Op α)).take (n - ops.length)).countP Op.isRestore ≤ 1 :=
    Nat.le_trans List.countP_le_length (List.length_take_le' ..)
  simp only [List.take_succ_cons, List.take_append, List.countP_cons, List.countP_append,
    Op.isSave, Op.isRestore, if_true, Bool.false_eq_true, if_false]
  omega

end Balanced

theorem Op.depth_add (op : Op α) (n : Nat)
    (h : (if op.isRestore then 1 else 0) ≤ n + (if op.isSave then 1 else 0)) :
    op.depth n + (if op.isRestore then 1 else 0) = n + (if op.isSave then 1 else 0) := by
  rcases op with _ | _ | _ | _ | _
  case restore => exact Nat.sub_add_cancel h
  all_goals rfl

/-- Where restores never outrun saves, counting frames along a log is counting its entries. -/
theorem foldl_depth : ∀ (ops : List (Op α)) (n : Nat),
    (∀ k, (ops.take k).countP Op.isRestore ≤ n + (ops.take k).countP Op.isSave) →
      ops.foldl Op.depth n + ops.countP Op.isRestore = n + ops.countP Op.isSave
  | [], n, _ => rfl
  | op :: ops, n, h => by
    have hop := op.depth_add n (by simpa [List.countP_singleton] using h 1)
    have ih := foldl_depth ops (op.depth n) fun k => by
      have hk := h (k + 1)
      simp only [List.take_succ_cons, List.countP_cons] at hk
      omega
    simp only [List.foldl_cons, List.countP_cons]
    omega

theorem foldl_depth_eq_openFrames {ops : List (Op α)}
    (h : ∀ k, (ops.take k).countP Op.isRestore ≤ (ops.take k).countP Op.isSave) :
    ops.foldl Op.depth 0 = openFrames ops := by
  have := foldl_depth ops 0 (by simpa using h)
  rw [openFrames]
  omega

end MagicCircle
