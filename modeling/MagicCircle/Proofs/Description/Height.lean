import MagicCircle.Proofs.Description.Grammar

/-!
# Nesting in the grammar

The number that the grammar gives a group bounds the height of its diagram and is not used for
anything else (`GroupText.height_le`, `GroupText.of_height`). So among the diagrams that texts
describe at all, a limit leaves out those that are too high and no others
(`describes_iff_of_length_lt`).
-/

namespace MagicCircle.Description

open Text

variable {shape : Shape} {n m k : Nat} {w text : List Char} {d e : Diagram} {ds : List Diagram}

theorem Composed.height_le_succ_iff (h : Composed shape ds d) :
    d.height ≤ k + 1 ↔ ∀ e ∈ ds, e.height ≤ k := by
  rcases h with inner | ⟨first, second⟩
  · simp [Diagram.height]
  · rw [Diagram.height, Nat.add_le_add_iff_right, Nat.max_le]
    simp

theorem Composed.height_pos (h : Composed shape ds d) : 0 < d.height := by
  rcases h with inner | ⟨first, second⟩ <;> exact Nat.succ_pos _

mutual

theorem GroupText.height_le {n : Nat} {w : List Char} {d : Diagram} (h : GroupText n w d) :
    d.height ≤ n := by
  match h with
  | .mk n _ _ _ _ _ _ _ hbody hd => exact hd.height_le_succ_iff.2 hbody.height_le

theorem BodyText.height_le {n : Nat} {w : List Char} {ds : List Diagram} (h : BodyText n w ds) :
    ∀ d ∈ ds, d.height ≤ n := by
  match h with
  | .nil _ => nofun
  | .separator _ _ _ _ _ hrest => exact hrest.height_le
  | .rune _ _ _ _ _ _ _ hrest => exact List.forall_mem_cons.2 ⟨Nat.zero_le _, hrest.height_le⟩
  | .group _ _ _ _ _ hd hrest => exact List.forall_mem_cons.2 ⟨hd.height_le, hrest.height_le⟩

end

mutual

theorem GroupText.of_height {n m : Nat} {w : List Char} {d : Diagram} (h : GroupText n w d)
    (hm : d.height ≤ m) : GroupText m w d := by
  match h with
  | .mk _ b head body shape ds _ hhead hbody hd =>
    obtain ⟨k, rfl⟩ := Nat.exists_eq_succ_of_ne_zero (Nat.ne_of_gt (hd.height_pos.trans_le hm))
    exact .mk k b head body shape ds d hhead (hbody.of_height (hd.height_le_succ_iff.1 hm)) hd

theorem BodyText.of_height {n m : Nat} {w : List Char} {ds : List Diagram} (h : BodyText n w ds)
    (hm : ∀ d ∈ ds, d.height ≤ m) : BodyText m w ds := by
  match h with
  | .nil _ => exact .nil m
  | .separator _ c rest ds hc hrest => exact .separator m c rest ds hc (hrest.of_height hm)
  | .rune _ word rest ds hne hw hhead hrest =>
    exact .rune m word rest ds hne hw hhead (hrest.of_height (List.forall_mem_cons.1 hm).2)
  | .group _ w rest d ds hd hrest =>
    obtain ⟨hmd, hmds⟩ := List.forall_mem_cons.1 hm
    exact .group m w rest d ds (hd.of_height hmd) (hrest.of_height hmds)

end

mutual

theorem GroupText.height_le_length {n : Nat} {w : List Char} {d : Diagram}
    (h : GroupText n w d) : d.height ≤ w.length := by
  match h with
  | .mk _ b head body shape ds _ _ hbody hd =>
    have hle := hd.height_le_succ_iff.2 hbody.height_le_length
    simp only [List.length_cons, List.length_append]
    omega

theorem BodyText.height_le_length {n : Nat} {w : List Char} {ds : List Diagram}
    (h : BodyText n w ds) : ∀ d ∈ ds, d.height ≤ w.length := by
  match h with
  | .nil _ => nofun
  | .separator _ _ _ _ _ hrest =>
    exact fun d hd => Nat.le_succ_of_le (hrest.height_le_length d hd)
  | .rune _ word rest _ _ _ _ hrest =>
    refine List.forall_mem_cons.2 ⟨Nat.zero_le _, fun d hd => ?_⟩
    rw [List.length_append]
    exact Nat.le_add_left_of_le (hrest.height_le_length d hd)
  | .group _ w rest d ds hd hrest =>
    rw [List.length_append]
    exact List.forall_mem_cons.2 ⟨Nat.le_add_right_of_le hd.height_le_length,
      fun d hd => Nat.le_add_left_of_le (hrest.height_le_length d hd)⟩

end

/-- A text that describes a diagram at all describes it within any limit that its height keeps. -/
theorem describes_iff_of_length_lt {unlimited : Nat} (h : text.length < unlimited) :
    Describes n text d ↔ Describes unlimited text d ∧ d.height ≤ n := by
  constructor
  · rintro ⟨before, w, after, rfl, hbefore, hafter, hgroup, hspell⟩
    have hlength := hgroup.height_le_length
    simp only [List.length_append] at h
    exact ⟨⟨before, w, after, rfl, hbefore, hafter, hgroup.of_height (by omega), hspell⟩,
      hgroup.height_le⟩
  · rintro ⟨⟨before, w, after, rfl, hbefore, hafter, hgroup, hspell⟩, hheight⟩
    exact ⟨before, w, after, rfl, hbefore, hafter, hgroup.of_height hheight, hspell⟩

theorem read_eq_ok_iff_of_length_lt {unlimited : Nat} (h : text.length < unlimited) :
    read n text = .ok d ↔ read unlimited text = .ok d ∧ d.height ≤ n := by
  constructor
  · intro hread
    obtain ⟨hd, hheight⟩ := (describes_iff_of_length_lt h).1 (describes_of_read hread)
    exact ⟨read_of_describes hd, hheight⟩
  · rintro ⟨hread, hheight⟩
    exact read_of_describes ((describes_iff_of_length_lt h).2 ⟨describes_of_read hread, hheight⟩)

end MagicCircle.Description
