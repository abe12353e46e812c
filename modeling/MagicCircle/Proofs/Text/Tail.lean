import MagicCircle.Text.Tail
import Mathlib.Data.List.TakeWhile
import Mathlib.Tactic.SplitIfs

/-!
# What lies between two tails

`t.Spans w r` says that the tail `r` is what the characters `w` leave of the tail `t`. Skipping a
run spans it (`spans_skip`), and spans add up (`Spans.trans`).
-/

namespace MagicCircle.Text

theorem byteCount_cons (c : Char) (cs : List Char) :
    byteCount (c :: cs) = c.utf8Size + byteCount cs := rfl

theorem byteCount_append : ∀ u v : List Char, byteCount (u ++ v) = byteCount u + byteCount v
  | [], v => (Nat.zero_add _).symm
  | c :: u, v => by
    rw [List.cons_append, byteCount_cons, byteCount_cons, byteCount_append u, Nat.add_assoc]

theorem suffixAt?_append (v : List Char) : ∀ u : List Char,
    suffixAt? (u ++ v) (byteCount u) = some v
  | [] => by rw [suffixAt?.eq_def, byteCount, if_pos rfl]; rfl
  | c :: u => by
    have hpos := c.utf8Size_pos
    rw [List.cons_append, suffixAt?, byteCount_cons, if_neg (by omega),
      if_pos (Nat.le_add_right ..), Nat.add_sub_cancel_left, suffixAt?_append v u]

theorem slice_append (u w v : List Char) :
    slice (u ++ (w ++ v)) (byteCount u) (byteCount u + byteCount w) = w := by
  have hfinish := suffixAt?_append v (u ++ w)
  rw [byteCount_append, List.append_assoc] at hfinish
  rw [slice, suffixAt?_append, hfinish]
  simp

/-- A tail starts where the characters before it end. -/
theorem exists_of_suffixAt? : ∀ {text : List Char} {pos : Nat} {v : List Char},
    suffixAt? text pos = some v → ∃ u, text = u ++ v ∧ byteCount u = pos
  | text, 0, v, h => by
    rw [suffixAt?.eq_def, if_pos rfl] at h
    exact ⟨[], Option.some.inj h, rfl⟩
  | [], pos + 1, v, h => by simp [suffixAt?] at h
  | c :: text, pos + 1, v, h => by
    rw [suffixAt?, if_neg (Nat.succ_ne_zero pos)] at h
    split at h
    · obtain ⟨u, rfl, hu⟩ := exists_of_suffixAt? h
      refine ⟨c :: u, rfl, ?_⟩
      rw [byteCount_cons, hu]
      omega
    · cases h

/-- Of two prefixes of a text the shorter one is a prefix of the other. -/
theorem exists_of_byteCount_lt {u u' v v' : List Char} {c : Char} (h : u ++ v = u' ++ c :: v')
    (hlt : byteCount u' < byteCount u) : ∃ w, u = u' ++ c :: w := by
  obtain ⟨w, rfl, -⟩ | ⟨w, rfl, hw⟩ := List.append_eq_append_iff.1 h
  · rw [byteCount_append] at hlt
    omega
  · rcases w with _ | ⟨a, w⟩
    · rw [List.append_nil] at hlt
      exact absurd hlt (Nat.lt_irrefl _)
    · obtain ⟨rfl, -⟩ := List.cons.inj hw
      exact ⟨w, rfl⟩

theorem length_le_byteCount : ∀ cs : List Char, cs.length ≤ byteCount cs
  | [] => Nat.le_refl 0
  | c :: cs => by
    have hpos := c.utf8Size_pos
    have ih := length_le_byteCount cs
    rw [List.length_cons, byteCount_cons]
    omega

theorem byteCount_pos {cs : List Char} (h : cs ≠ []) : 0 < byteCount cs :=
  Nat.lt_of_lt_of_le (List.length_pos_iff.2 h) (length_le_byteCount cs)

theorem skipWhile_append (p : Char → Bool) (u v : List Char) :
    skipWhile p (u ++ v) (byteCount u) = byteCount u + byteCount (v.takeWhile p) := by
  rw [skipWhile, suffixAt?_append]

namespace Tail

variable {t r s : Tail} {v w : List Char} {p : Char → Bool}

/-- The tail `r` is what the characters `w` leave of the tail `t`. -/
def Spans (t : Tail) (w : List Char) (r : Tail) : Prop :=
  t.chars = w ++ r.chars ∧ r.offset = t.offset + byteCount w

theorem Spans.refl (t : Tail) : t.Spans [] t := ⟨rfl, rfl⟩

theorem Spans.trans (h : t.Spans v r) (h' : r.Spans w s) : t.Spans (v ++ w) s := by
  refine ⟨?_, ?_⟩
  · rw [h.1, h'.1, List.append_assoc]
  · rw [h'.2, h.2, byteCount_append, Nat.add_assoc]

theorem Spans.le (h : t.Spans w r) : t.offset ≤ r.offset := by
  rw [h.2]
  omega

theorem Spans.lt (h : t.Spans w r) (hw : w ≠ []) : t.offset < r.offset := by
  have hpos := byteCount_pos hw
  rw [h.2]
  omega

theorem spans_cons {c : Char} {cs : List Char} (h : t.chars = c :: cs) :
    t.Spans [c] ⟨t.offset + c.utf8Size, cs⟩ :=
  ⟨h, by simp [byteCount]⟩

theorem Spans.mem_head {c : Char} (h : t.Spans w r) (hc : c ∈ w.head?) : c ∈ t.chars.head? := by
  rcases w with _ | ⟨a, w⟩
  · cases hc
  · rw [h.1]
    exact hc

theorem spans_skip (p : Char → Bool) (t : Tail) : t.Spans (t.run p) (t.skip p) :=
  ⟨(List.takeWhile_append_dropWhile).symm, rfl⟩

theorem forall_mem_run {c : Char} (h : c ∈ t.run p) : p c = true :=
  List.all_eq_true.1 List.all_takeWhile c h

/-- After skipping a run, no character of its kind comes first. -/
theorem head_skip {c : Char} (h : c ∈ (t.skip p).chars.head?) : p c = false := by
  have := List.head?_dropWhile_not p t.chars
  simp only [skip, Option.mem_def] at h
  rw [h] at this
  exact this

/-- Skipping stops at once where no character to skip comes first. -/
theorem skip_of_head (h : ∀ c ∈ t.chars.head?, p c = false) : t.skip p = t := by
  rcases t with ⟨o, _ | ⟨c, cs⟩⟩
  · rfl
  · have hc : p c = false := h c rfl
    simp [skip, hc, byteCount]

theorem skip_skip (p : Char → Bool) (t : Tail) : (t.skip p).skip p = t.skip p :=
  skip_of_head fun _ => head_skip

/-- A run that no character of its kind follows is skipped as a whole. -/
theorem skip_append {o : Nat} {cs : List Char} (hw : ∀ c ∈ w, p c = true)
    (hcs : ∀ c ∈ cs.head?, p c = false) :
    skip p ⟨o, w ++ cs⟩ = ⟨o + byteCount w, cs⟩ := by
  have hrest : skip p ⟨o + byteCount w, cs⟩ = ⟨o + byteCount w, cs⟩ := skip_of_head hcs
  simp only [skip, mk.injEq] at hrest ⊢
  rw [List.takeWhile_append_of_pos hw, List.dropWhile_append_of_pos hw, byteCount_append]
  exact ⟨by omega, hrest.2⟩

theorem run_append {o : Nat} {cs : List Char} (hw : ∀ c ∈ w, p c = true)
    (hcs : ∀ c ∈ cs.head?, p c = false) : run p ⟨o, w ++ cs⟩ = w := by
  simp only [run]
  rw [List.takeWhile_append_of_pos hw]
  rcases cs with _ | ⟨c, cs⟩
  · simp
  · simp [hcs c rfl]

end Tail

end MagicCircle.Text
