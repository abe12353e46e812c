import MagicCircle.Description.Local
import MagicCircle.Proofs.Description.Delimiters
import MagicCircle.Proofs.Description.Height
import MagicCircle.Proofs.Text.Bytes

/-!
# Groups are read by themselves

What is read as a group is enclosed by the group's brackets (`GroupText.enclosed`), and is read as the
same group wherever else it stands (`groupFrom_of_groupText`): neither what comes before a group nor
what follows it makes a difference, and the groups around it count only towards the limit. Components
are read up to the closing bracket that is none of theirs (`BodyText.upToClosing`).

`Nested` is the invariant that both follow from, along the grammar.
-/

namespace MagicCircle.Description

open Text

variable {limit depth start n : Nat} {c : Char} {b : Bracket} {u v w rest text : List Char}
  {shape : Shape} {d : Diagram} {ds : List Diagram}

/-! ## Brackets matched among themselves -/

/-- The brackets in the characters are matched among themselves wherever the characters stand, and
none of them matches a bracket before them. -/
structure Nested (w : List Char) : Prop where
  meetAll_eq : ∀ o ds, Delimiter.meetAll o w ds = ds
  exists_open : ∀ u v, w = u ++ v → ∀ o ds, ∃ new, Delimiter.meetAll o u ds = new ++ ds ∧
    ∀ d ∈ new, isClosing d.symbol = false

namespace Nested

theorem nil : Nested [] := by
  refine ⟨fun _ _ => rfl, fun u v huv o ds => ⟨[], ?_, nofun⟩⟩
  obtain ⟨rfl, -⟩ := List.append_eq_nil_iff.1 huv.symm
  rfl

theorem append (hu : Nested u) (hv : Nested v) : Nested (u ++ v) := by
  refine ⟨fun o ds => ?_, fun x y hxy o ds => ?_⟩
  · rw [Delimiter.meetAll_append, hu.meetAll_eq, hv.meetAll_eq]
  · obtain ⟨z, rfl, hz⟩ | ⟨z, rfl, -⟩ := List.append_eq_append_iff.1 hxy
    · rw [Delimiter.meetAll_append, hu.meetAll_eq]
      exact hv.exists_open z y hz _ ds
    · exact hu.exists_open x z rfl o ds

theorem singleton (hc : ∀ o ds, Delimiter.meet o c ds = ds) : Nested [c] := by
  refine ⟨fun o ds => hc o ds, fun u v huv o ds => ⟨[], ?_, nofun⟩⟩
  rcases u with _ | ⟨a, u⟩
  · rfl
  · obtain ⟨rfl, hnil⟩ := List.cons.inj huv
    obtain ⟨rfl, -⟩ := List.append_eq_nil_iff.1 hnil.symm
    exact hc o ds

theorem of_forall (hw : ∀ c ∈ w, ∀ o ds, Delimiter.meet o c ds = ds) : Nested w := by
  induction w with
  | nil => exact nil
  | cons c w ih =>
    obtain ⟨hc, hw⟩ := List.forall_mem_cons.1 hw
    exact (singleton hc).append (ih hw)

/-- In a part that stops short of the closing bracket, the bracket around the text is open. -/
theorem meetAll_opening (h : Nested w) (huv : w ++ [c] = u ++ v) (hv : v ≠ []) (b : Bracket)
    (o : Nat) (ds : List Delimiter) : ∃ new, Delimiter.meetAll o (b.opening :: u) ds =
      new ++ ⟨b.opening, o⟩ :: ds ∧ ∀ d ∈ new, isClosing d.symbol = false := by
  obtain ⟨v, a, rfl⟩ := (List.eq_nil_or_concat v).resolve_left hv
  have hw : w = u ++ v := by
    rw [List.concat_eq_append, ← List.append_assoc] at huv
    exact List.append_inj_left' huv rfl
  rw [Delimiter.meetAll, Delimiter.meet_opening]
  exact h.exists_open u v hw _ _

theorem enclose (h : Nested w) (b : Bracket) : Nested (b.opening :: (w ++ [b.closing])) := by
  have hwhole : ∀ o ds, Delimiter.meetAll o (b.opening :: (w ++ [b.closing])) ds = ds := by
    intro o ds
    rw [Delimiter.meetAll, Delimiter.meetAll_append, Delimiter.meet_opening, h.meetAll_eq]
    exact Delimiter.meet_closing ..
  refine ⟨hwhole, fun u v huv o ds => ?_⟩
  rcases u with _ | ⟨a, u⟩
  · exact ⟨[], rfl, List.forall_mem_nil _⟩
  obtain ⟨rfl, hinner⟩ := List.cons.inj huv
  by_cases hv : v = []
  · rw [hv, List.append_nil] at huv
    exact ⟨[], by rw [← huv, hwhole]; rfl, List.forall_mem_nil _⟩
  · obtain ⟨new, hnew, hopen⟩ := h.meetAll_opening hinner hv b o ds
    refine ⟨new ++ [⟨b.opening, o⟩], by simpa using hnew, fun d hd => ?_⟩
    obtain hd | hd := List.mem_append.1 hd
    · exact hopen d hd
    · rw [List.mem_singleton.1 hd]
      exact b.isClosing_opening

theorem enclosed (h : Nested w) (b : Bracket) :
    Enclosed b (b.opening :: (w ++ [b.closing])) := by
  refine ⟨⟨w, rfl⟩, (h.enclose b).meetAll_eq 0 [], fun u v huv hu hv => ?_⟩
  obtain ⟨a, u, rfl⟩ := List.exists_cons_of_ne_nil hu
  obtain ⟨rfl, hinner⟩ := List.cons.inj huv
  obtain ⟨new, hnew, -⟩ := h.meetAll_opening hinner hv b 0 []
  rw [unmatched, hnew]
  exact List.append_ne_nil_of_right_ne_nil _ (List.cons_ne_nil _ _)

theorem upToClosing (h : Nested w) (hrest : ∀ c ∈ rest.head?, isClosing c = true) :
    UpToClosing w rest := by
  refine ⟨h.meetAll_eq 0 [], fun u v huv d hd => ?_, fun c hc => ⟨hrest c hc, ?_⟩⟩
  · obtain ⟨new, hnew, hopen⟩ := h.exists_open u v huv 0 []
    rw [unmatched, hnew, List.append_nil] at hd
    exact hopen d hd
  · rw [unmatched_concat, unmatched, h.meetAll_eq, Delimiter.meet, if_pos (hrest c hc)]

end Nested

theorem Head.nested (h : Head b w shape) : Nested w := by
  refine .of_forall fun c hc o ds => ?_
  cases h <;> simp at hc
  all_goals
    rcases hc with rfl | rfl <;> rfl

mutual

theorem GroupText.exists_nested {n : Nat} {w : List Char} {d : Diagram} (h : GroupText n w d) :
    ∃ b inner, w = Bracket.opening b :: (inner ++ [b.closing]) ∧ Nested inner := by
  match h with
  | .mk _ b head body _ _ _ hhead hbody _ =>
    exact ⟨b, head ++ body, rfl, hhead.nested.append hbody.nested⟩

theorem BodyText.nested {n : Nat} {w : List Char} {ds : List Diagram} (h : BodyText n w ds) :
    Nested w := by
  match h with
  | .nil _ => exact .nil
  | .separator _ c rest _ hc hrest =>
    exact (Nested.singleton fun _ _ => Delimiter.meet_isSeparator hc).append hrest.nested
  | .rune _ word rest _ _ hword _ hrest =>
    have hnested : Nested word := .of_forall fun c hc _ _ => Delimiter.meet_isWordChar (hword c hc)
    exact hnested.append hrest.nested
  | .group _ w rest _ _ hd hrest =>
    obtain ⟨b, inner, rfl, hinner⟩ := hd.exists_nested
    exact (hinner.enclose b).append hrest.nested

end

/-! ## Reading from a place -/

theorem groupFrom_append (limit depth : Nat) (b : Bracket) (u cs : List Char) :
    groupFrom limit (u ++ b.opening :: cs) (byteCount u) depth =
      (groupAt limit depth b (byteCount u) ⟨byteCount u + 1, cs⟩).map fun p =>
        (p.1, p.2.offset - byteCount u) := by
  have htail : (tailFrom (u ++ b.opening :: cs) (byteCount u)).chars = b.opening :: cs := by
    rw [tailFrom, suffixAt?_append]
    rfl
  unfold groupFrom groupAt
  simp only [htail, if_neg b.opening_ne_definitionMark, Bracket.ofOpening?_opening]
  rcases group limit depth b (byteCount u) ⟨byteCount u + 1, cs⟩ with e | p <;> rfl

/-- Where a group is read, its bracket stands. -/
theorem groupFrom_eq_ok (h : groupFrom limit text start depth = .ok (d, n)) :
    ∃ u b cs r, text = u ++ Bracket.opening b :: cs ∧ byteCount u = start ∧
      groupAt limit depth b start ⟨start + 1, cs⟩ = .ok (d, r) ∧ n = r.offset - start := by
  have hdone := h
  unfold groupFrom at h
  split at h
  · cases h
  rename_i c cs hcs
  split at h
  · cases h
  split at h
  · rename_i b hb
    obtain rfl := Bracket.eq_opening_of_ofOpening? hb
    rcases hs : suffixAt? text start with _ | v
    · rw [tailFrom, hs] at hcs
      cases hcs
    · rw [tailFrom, hs] at hcs
      obtain rfl : v = b.opening :: cs := hcs
      obtain ⟨u, rfl, rfl⟩ := exists_of_suffixAt? hs
      rw [groupFrom_append] at hdone
      rcases hg : groupAt limit depth b (byteCount u) ⟨byteCount u + 1, cs⟩ with e | ⟨d', r⟩ <;>
        rw [hg] at hdone <;> cases hdone
      exact ⟨u, b, cs, r, rfl, rfl, hg, rfl⟩
  · split at h <;> cases h

/-- What is read as a group is a group of the grammar, at its place in the text. -/
theorem groupText_of_groupFrom (h : groupFrom limit text start depth = .ok (d, n)) :
    ∃ u w v, text = u ++ (w ++ v) ∧ byteCount u = start ∧ byteCount w = n ∧
      GroupText (limit + 1 - depth) w d := by
  obtain ⟨u, b, cs, r, rfl, rfl, hgroup, rfl⟩ := groupFrom_eq_ok h
  obtain ⟨w, ⟨hchars, hoffset⟩, hw⟩ :=
    groupText_of_groupAt (fun _ _ _ _ hu => bodyText_of_bodyAt hu) hgroup
  refine ⟨u, b.opening :: w, r.chars, ?_, rfl, ?_, hw⟩
  · exact congrArg (u ++ b.opening :: ·) hchars
  · rw [byteCount_cons, Bracket.utf8Size_opening, hoffset]
    dsimp only
    omega

/-- A group of the grammar is read wherever it stands, if the limit leaves room for its height. -/
theorem groupFrom_of_groupText (h : GroupText n w d) (hlimit : depth + d.height - 1 ≤ limit)
    (u v : List Char) :
    groupFrom limit (u ++ (w ++ v)) (byteCount u) depth = .ok (d, byteCount w) := by
  obtain ⟨b, body, rfl, -⟩ := h.exists_opening
  have hread : groupAt limit depth b (byteCount u) ⟨byteCount u + 1, body ++ v⟩ = _ :=
    groupAt_of_groupText (h.of_height le_rfl) rfl (by omega)
  rw [List.cons_append, groupFrom_append, hread, byteCount_cons, Bracket.utf8Size_opening]
  simp only [Except.map]
  congr 2
  omega

theorem componentsFrom_eq_ok (h : componentsFrom limit text start depth = .ok (ds, n)) :
    ∃ r, bodyAt limit depth (tailFrom text start) = .ok (ds, r) ∧ n = r.offset - start := by
  unfold componentsFrom at h
  unfold bodyAt
  rcases hb : body limit depth (tailFrom text start) with e | ⟨ds', r⟩ <;> rw [hb] at h <;> cases h
  exact ⟨r, rfl, rfl⟩

theorem tailFrom_append (h : (tailFrom text start).chars = w ++ rest) :
    tailFrom text (start + byteCount w) = ⟨start + byteCount w, rest⟩ := by
  rcases hs : suffixAt? text start with _ | v <;> rw [tailFrom, hs] at h
  · obtain ⟨rfl, rfl⟩ := List.append_eq_nil_iff.1 h.symm
    rw [tailFrom, byteCount, Nat.add_zero, hs]
    rfl
  · obtain ⟨u, rfl, rfl⟩ := exists_of_suffixAt? hs
    obtain rfl : v = w ++ rest := h
    have hsuffix := suffixAt?_append rest (u ++ w)
    rw [List.append_assoc, byteCount_append] at hsuffix
    rw [tailFrom, hsuffix]
    rfl

/-- A group that is read takes up at least its two brackets and lies in the text between two
characters: it starts with its opening bracket, ends with its closing one, and these enclose it. Any
text that has the same bytes somewhere is read as the same group from there, if the limit leaves room
for the group's height. Components that are read take up the text up to the first closing bracket that
belongs to none of them, or up to its end. -/
theorem reading_is_local (limit : Nat) (text : List Char) (start depth : Nat) :
    (∀ d n, groupFrom limit text start depth = .ok (d, n) →
      2 ≤ n ∧ start + n ≤ byteCount text ∧ (suffixAt? text (start + n)).isSome = true ∧
      (∃ b, charAt? text start = some (Bracket.opening b) ∧
        Enclosed b (slice text start (start + n))) ∧
      ∀ text' start' depth',
        ((bytes text').drop start').take n = ((bytes text).drop start).take n →
        depth' + d.height - 1 ≤ limit → groupFrom limit text' start' depth' = .ok (d, n)) ∧
    ∀ ds n, componentsFrom limit text start depth = .ok (ds, n) →
      ∃ w rest, (tailFrom text start).chars = w ++ rest ∧ byteCount w = n ∧
        (tailFrom text (start + n)).chars = rest ∧ BodyText (limit - depth) w ds ∧
        UpToClosing w rest := by
  refine ⟨fun d n h => ?_, fun ds n h => ?_⟩
  · obtain ⟨u, w, v, rfl, rfl, rfl, hw⟩ := groupText_of_groupFrom h
    obtain ⟨b, inner, hwb, hinner⟩ := hw.exists_nested
    have hsuffix := suffixAt?_append v (u ++ w)
    rw [List.append_assoc, byteCount_append] at hsuffix
    have hne : w ≠ [] := by
      rw [hwb]
      exact List.cons_ne_nil _ _
    refine ⟨?_, ?_, ?_, ⟨b, ?_, ?_⟩, fun text' start' depth' hbytes hlimit => ?_⟩
    · rw [hwb, byteCount_cons, byteCount_append, byteCount_cons, Bracket.utf8Size_opening,
        Bracket.utf8Size_closing]
      omega
    · rw [byteCount_append, byteCount_append]
      omega
    · rw [hsuffix]
      rfl
    · rw [charAt?, suffixAt?_append, hwb]
      rfl
    · rw [slice_append, hwb]
      exact hinner.enclosed b
    · rw [take_drop_bytes] at hbytes
      obtain ⟨u', v', rfl, rfl⟩ := exists_of_take_drop_bytes_eq hne hbytes
      exact groupFrom_of_groupText hw hlimit u' v'
  · obtain ⟨r, hbody, rfl⟩ := componentsFrom_eq_ok h
    obtain ⟨w, ⟨hchars, hoffset⟩, hw⟩ := bodyText_of_bodyAt hbody
    have hn : r.offset - start = byteCount w := by
      rw [hoffset, tailFrom, Nat.add_sub_cancel_left]
    refine ⟨w, r.chars, hchars, hn.symm, ?_, hw, hw.nested.upToClosing (stops_of_bodyAt hbody)⟩
    rw [hn, tailFrom_append hchars]

/-- The group of `x(a<T:b>)y`, which takes up eight bytes, is read alike one group deeper, after a
character of two bytes and with nothing after it. -/
theorem reading_is_local_moved :
    groupFrom 3 ['x', '(', 'a', '<', 'T', ':', 'b', '>', ')', 'y'] 1 1 =
        .ok (.pair .spell (.rune "a") (.solo (.triangle .target) (.rune "b")), 8) ∧
      groupFrom 3 ['é', '(', 'a', '<', 'T', ':', 'b', '>', ')'] 2 2 =
        .ok (.pair .spell (.rune "a") (.solo (.triangle .target) (.rune "b")), 8) := by
  have hinner : GroupText 1 ['<', 'T', ':', 'b', '>'] (.solo (.triangle .target) (.rune "b")) :=
    .mk 0 .angle ['T', ':'] ['b'] _ [.rune "b"] _ .target
      (.rune 0 ['b'] [] [] (by decide) (List.forall_mem_singleton.2 (by decide)) nofun (.nil 0))
      (.solo _)
  have hgroup : GroupText 2 ['(', 'a', '<', 'T', ':', 'b', '>', ')']
      (.pair .spell (.rune "a") (.solo (.triangle .target) (.rune "b"))) :=
    .mk 1 .round [] ['a', '<', 'T', ':', 'b', '>'] _ [.rune "a", _] _ .round
      (.rune 1 ['a'] _ _ (by decide) (List.forall_mem_singleton.2 (by decide))
        (by rintro _ ⟨⟩; decide) (.group 1 _ [] _ [] hinner (.nil 1)))
      (.pair _ _)
  have hread : groupFrom 3 ['x', '(', 'a', '<', 'T', ':', 'b', '>', ')', 'y'] 1 1 = .ok (_, 8) :=
    groupFrom_of_groupText hgroup (by decide) ['x'] ['y']
  obtain ⟨-, -, -, -, hlocal⟩ := (reading_is_local 3 _ 1 1).1 _ 8 hread
  exact ⟨hread, hlocal _ 2 2 (by decide +kernel) (by decide)⟩

end MagicCircle.Description
