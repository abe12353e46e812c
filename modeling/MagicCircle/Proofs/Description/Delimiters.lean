import MagicCircle.Description.Delimiters
import MagicCircle.Proofs.Description.Steps

/-!
# Open groups and unmatched delimiters

The groups that the scanner has open are the delimiters that are unmatched in the text so far
(`unmatched_of_after`), and there are never more of them than the limit allows
(`length_delimiters_le`).
-/

namespace MagicCircle.Description

open Text

namespace Delimiter

theorem meetAll_append (v : List Char) : ∀ (u : List Char) (o : Nat) (ds : List Delimiter),
    meetAll o (u ++ v) ds = meetAll (o + byteCount u) v (meetAll o u ds)
  | [], _, _ => rfl
  | c :: u, o, ds => by
    rw [List.cons_append, meetAll, meetAll, meetAll_append v u, byteCount_cons, Nat.add_assoc]

end Delimiter

theorem unmatched_concat (u : List Char) (c : Char) :
    unmatched (u ++ [c]) = Delimiter.meet (byteCount u) c (unmatched u) := by
  rw [unmatched, Delimiter.meetAll_append, Nat.zero_add]
  rfl

theorem mem_unmatched {d : Delimiter} {text : List Char} (h : d ∈ unmatched text) :
    ∃ u v, text = u ++ d.symbol :: v ∧ byteCount u = d.offset := by
  induction text using List.reverseRecOn with
  | nil => cases h
  | append_singleton u c ih =>
    rw [unmatched_concat] at h
    obtain rfl | h := Delimiter.mem_meet h
    · exact ⟨u, [], rfl, rfl⟩
    · obtain ⟨u', v, rfl, hoffset⟩ := ih h
      exact ⟨u', v ++ [c], by simp, hoffset⟩

theorem length_unmatched_le (text : List Char) : (unmatched text).length ≤ text.length := by
  induction text using List.reverseRecOn with
  | nil => exact Nat.le_refl 0
  | append_singleton u c ih =>
    have hmeet := Delimiter.length_meet_le (byteCount u) c (unmatched u)
    rw [unmatched_concat, List.length_append, List.length_singleton]
    omega

namespace Scanner

open StackMachine (OpenGroup)

/-- The bracket that opened the group. -/
def delimiter (g : OpenGroup) : Delimiter := ⟨g.bracket.opening, g.start⟩

/-- The brackets that opened the groups of a state, from the inside out. -/
def State.delimiters : State → List Delimiter
  | start => []
  | body g outer => (g :: outer).map delimiter
  | word g outer _ => (g :: outer).map delimiter
  | mark around opened _ => ⟨Bracket.angle.opening, opened⟩ :: around.map delimiter
  | done _ => []

variable {limit o : Nat} {c : Char} {s s' : State} {g : OpenGroup} {b : Bracket}
  {outer around : List OpenGroup} {text : List Char}

theorem State.Inside.delimiters_eq (h : s.Inside g outer) :
    s.delimiters = delimiter g :: outer.map delimiter := by
  rcases h with _ | _ <;> rfl

theorem State.Opens.delimiters_eq (h : s.Opens b around) :
    s.delimiters = around.map delimiter := by
  rcases h with _ | ⟨b, h⟩
  · rfl
  · exact h.delimiters_eq

theorem delimiters_openGroup (h : openGroup limit around b o = .ok s) :
    s.delimiters = ⟨b.opening, o⟩ :: around.map delimiter := by
  unfold openGroup at h
  split at h
  · cases h
  · cases b <;> cases h <;> rfl

theorem delimiters_closeGroup (h : closeGroup g outer = .ok s) :
    s.delimiters = outer.map delimiter := by
  unfold closeGroup at h
  split at h
  · cases h
  · rcases outer with _ | ⟨g', outer⟩ <;> cases h <;> rfl

/-- A character changes the groups of the state as it changes the unmatched delimiters. -/
theorem Moves.delimiters_eq (h : Moves limit o c s s') :
    s'.delimiters = Delimiter.meet o c s.delimiters := by
  have hspace {c : Char} (hc : isSpace c = true) : isSeparator c = true := by simp [isSeparator, hc]
  cases h with
  | blank hc => exact (Delimiter.meet_isSeparator (hspace hc)).symm
  | opening hs _ hopen => rw [delimiters_openGroup hopen, hs.delimiters_eq, Delimiter.meet_opening]
  | separator hs hc => rw [Delimiter.meet_isSeparator hc, hs.delimiters_eq]; rfl
  | closing hs hclose =>
    rw [delimiters_closeGroup hclose, hs.delimiters_eq, delimiter, Delimiter.meet_closing]
  | name g outer hc => exact (Delimiter.meet_isWordChar hc).symm
  | word g outer name hc => exact (Delimiter.meet_isWordChar hc).symm
  | mark around opened chars hc => exact (Delimiter.meet_isWordChar hc).symm
  | colon around opened ht => rfl
  | trailing d hc => exact (Delimiter.meet_isSeparator (hspace hc)).symm

theorem unmatched_of_after (h : after limit text = .ok s) : unmatched text = s.delimiters := by
  refine forall_after (P := fun u s => unmatched u = s.delimiters) rfl ?_ h
  intro u c s s' ih hmove
  rw [unmatched_concat, ih, hmove.delimiters_eq]

theorem length_delimiters_le (h : after limit text = .ok s) : s.delimiters.length ≤ limit := by
  refine forall_after (P := fun _ s => s.delimiters.length ≤ limit) (Nat.zero_le _) ?_ h
  intro u c s s' ih hmove
  cases hmove with
  | blank => exact ih
  | opening hs hlimit hopen =>
    rw [delimiters_openGroup hopen, List.length_cons, List.length_map]
    exact hlimit
  | separator hs hc => rwa [hs.delimiters_eq] at ih
  | closing hs hclose =>
    rw [hs.delimiters_eq, List.length_cons] at ih
    rw [delimiters_closeGroup hclose]
    exact Nat.le_of_succ_le ih
  | name | word | mark | colon | trailing => exact ih

end Scanner

end MagicCircle.Description
