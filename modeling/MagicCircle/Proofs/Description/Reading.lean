import MagicCircle.Description.Reader
import MagicCircle.Proofs.Text.Tail

/-!
# The steps of reading

`group` and `body` return what they leave of a text together with the proof that it is shorter.
Here they are without it, as `groupAt` and `bodyAt`, each with one equation that says what it does
(`groupAt_eq`, `bodyAt_eq`). Nothing else opens the two functions.
-/

namespace MagicCircle.Description

open Text (Tail)

theorem bind_eq_ok {ε α β : Type} {x : Except ε α} {f : α → Except ε β} {b : β} :
    x >>= f = .ok b ↔ ∃ a, x = .ok a ∧ f a = .ok b := by
  cases x <;> simp [bind, Except.bind]

theorem bind_congr_of_ok {ε α β : Type} {x : Except ε α} {f g : α → Except ε β}
    (h : ∀ a, x = .ok a → f a = g a) : x >>= f = x >>= g := by
  rcases x with e | a
  · rfl
  · exact h a rfl

/-- The shape of a group and the tail its components start at. -/
def headAt (b : Bracket) (t : Tail) : Except ReadError (Shape × Tail) :=
  match groupShape b t with
  | .error f => .error (.fault f)
  | .ok (shape, u) => .ok (shape, u.val)

theorem headAt_angle {t u : Tail} (hu : t.skip isWordChar = u) :
    headAt .angle t =
      match u.chars with
      | ':' :: cs =>
        if t.run isWordChar = [] then .error (.fault (.missingMark t.offset))
        else match Triangle.ofMark? (t.run isWordChar) with
          | none => .error (.fault (.unknownMark (String.ofList (t.run isWordChar)) t.offset))
          | some triangle => .ok (.triangle triangle, ⟨u.offset + 1, cs⟩)
      | _ => .error (.fault (.missingMark t.offset)) := by
  subst hu
  simp only [headAt, groupShape]
  split <;> rename_i hs <;> split at hs <;> rename_i hc
  · simp only [hc]
    split_ifs at hs with hm
    · cases hs
      rw [if_pos hm]
    · rw [if_neg hm]
      rcases ht : Triangle.ofMark? (t.run isWordChar) <;> simp only [ht] at hs ⊢ <;> cases hs
      rfl
  · cases hs
    split
    · exact absurd ‹_› (hc _)
    · rfl
  · simp only [hc]
    split_ifs at hs with hm
    rw [if_neg hm]
    rcases ht : Triangle.ofMark? (t.run isWordChar) <;> simp only [ht] at hs ⊢ <;> cases hs
    rfl
  · cases hs

/-- The diagram of a group and the tail after it. -/
def groupAt (limit depth : Nat) (b : Bracket) (start : Nat) (t : Tail) :
    Except ReadError (Diagram × Tail) :=
  (group limit depth b start t).map fun p => (p.1, p.2.val)

/-- The components in a body and the tail after them. -/
def bodyAt (limit depth : Nat) (t : Tail) : Except ReadError (List Diagram × Tail) :=
  (body limit depth t).map fun p => (p.1, p.2.val)

/-- Ends the group whose components have been read: its closing bracket comes first in `r`, and the
components are as many as its shape holds. -/
def closeAt (b : Bracket) (start : Nat) (shape : Shape) (components : List Diagram) (r : Tail) :
    Except ReadError (Diagram × Tail) :=
  match r.chars with
  | [] => .error (.fault (.unterminated b.opening start))
  | c :: cs =>
    if c = b.closing then
      match Diagram.group shape components with
      | .error e => .error (.structural e)
      | .ok d => .ok (d, ⟨r.offset + 1, cs⟩)
    else .error (.fault (.mismatchedClose b.closing c r.offset))

theorem groupAt_eq (limit depth : Nat) (b : Bracket) (start : Nat) (t : Tail) :
    groupAt limit depth b start t =
      if limit < depth then .error (.fault (.tooDeep limit start))
      else headAt b t >>= fun p => bodyAt limit depth p.2 >>= fun q =>
        closeAt b start p.1 q.1 q.2 := by
  rw [groupAt, group]
  split
  · rfl
  unfold headAt
  rcases groupShape b t with f | ⟨shape, u, hu⟩
  · rfl
  simp only [bind, Except.bind, bodyAt]
  rcases body limit depth u with e | ⟨components, r, hr⟩
  · rfl
  simp only [Except.map, closeAt]
  rcases r with ⟨o, _ | ⟨c, cs⟩⟩
  · rfl
  · by_cases h : c = b.closing
    · simp only [if_pos h]
      rcases Diagram.group shape components with e | d <;> rfl
    · simp only [if_neg h]

theorem bodyAt_eq {limit depth : Nat} {t u : Tail} (hu : t.skip isSeparator = u) :
    bodyAt limit depth t =
      match u.chars with
      | [] => .ok ([], u)
      | c :: cs =>
        if isClosing c then .ok ([], u)
        else if c = definitionMark then .error (.fault (.definitionsUnsupported u.offset))
        else match Bracket.ofOpening? c with
          | some b =>
            groupAt limit (depth + 1) b u.offset ⟨u.offset + 1, cs⟩ >>= fun p =>
              bodyAt limit depth p.2 >>= fun q => .ok (p.1 :: q.1, q.2)
          | none =>
            if isWordChar c then
              bodyAt limit depth (u.skip isWordChar) >>= fun q =>
                .ok (.rune (String.ofList (u.run isWordChar)) :: q.1, q.2)
            else .error (.fault (.unexpectedChar c u.offset)) := by
  subst hu
  rw [bodyAt, body]
  split
  · rename_i hu
    simp only [hu]
    rfl
  rename_i c cs hu
  simp only [hu]
  by_cases hcl : isClosing c
  · simp only [if_pos hcl]
    rfl
  by_cases hd : c = definitionMark
  · simp only [if_neg hcl, if_pos hd]
    rfl
  simp only [if_neg hcl, if_neg hd]
  rcases Bracket.ofOpening? c with _ | b
  · by_cases hw : isWordChar c
    · simp only [dif_pos hw, if_pos hw, bodyAt]
      rcases body limit depth ((t.skip isSeparator).skip isWordChar) with e | ⟨ds, r, hr⟩ <;> rfl
    · simp only [dif_neg hw, if_neg hw]
      rfl
  · simp only [groupAt]
    rcases group limit (depth + 1) b _ _ with e | ⟨d, v, hv⟩
    · rfl
    simp only [Except.map, bind, Except.bind, bodyAt]
    rcases body limit depth v with e | ⟨ds, r, hr⟩ <;> rfl

/-- Ends a text after its description, which only blanks may follow. -/
def endAt (d : Diagram) (r : Tail) : Except ReadError Diagram :=
  match (r.skip isSpace).chars with
  | [] => .ok d
  | _ :: _ => .error (.fault (.trailingInput (r.skip isSpace).offset))

theorem read_eq {limit : Nat} {text : List Char} {t : Tail}
    (ht : (Tail.ofChars text).skip isSpace = t) :
    read limit text =
      match t.chars with
      | [] => .error (.fault .noDescription)
      | c :: cs =>
        if c = Bracket.round.opening then
          groupAt limit 1 .round t.offset ⟨t.offset + 1, cs⟩ >>= fun p => endAt p.1 p.2
        else .error (.fault (.malformed c t.offset)) := by
  subst ht
  simp only [read]
  rcases ((Tail.ofChars text).skip isSpace).chars with _ | ⟨c, cs⟩
  · rfl
  simp only [groupAt]
  split
  · rcases group limit 1 .round _ _ with e | ⟨d, r, hr⟩ <;> rfl
  · rfl

section Success

variable {limit depth start : Nat} {b : Bracket} {shape : Shape} {d : Diagram}
  {ds : List Diagram} {t r : Tail}

theorem length_headAt_le (h : headAt b t = .ok (shape, r)) : r.length ≤ t.length := by
  unfold headAt at h
  rcases hs : groupShape b t with f | ⟨s, u, hu⟩ <;> rw [hs] at h <;> cases h
  exact hu

theorem length_groupAt_lt (h : groupAt limit depth b start t = .ok (d, r)) :
    r.length < t.length := by
  unfold groupAt at h
  rcases hg : group limit depth b start t with e | ⟨s, u, hu⟩ <;> rw [hg] at h <;> cases h
  exact hu

theorem closeAt_eq_ok (h : closeAt b start shape ds t = .ok (d, r)) :
    ∃ cs, t.chars = b.closing :: cs ∧ r = ⟨t.offset + 1, cs⟩ ∧ Diagram.group shape ds = .ok d := by
  unfold closeAt at h
  split at h
  · cases h
  rename_i c cs hc
  split_ifs at h with hcl
  rcases hd : Diagram.group shape ds with e | d' <;> rw [hd] at h <;> cases h
  exact ⟨cs, by rw [hc, hcl], rfl, rfl⟩

theorem groupAt_eq_ok (h : groupAt limit depth b start t = .ok (d, r)) :
    depth ≤ limit ∧ ∃ shape u ds v, headAt b t = .ok (shape, u) ∧
      bodyAt limit depth u = .ok (ds, v) ∧ closeAt b start shape ds v = .ok (d, r) := by
  rw [groupAt_eq] at h
  split_ifs at h with hd
  obtain ⟨⟨shape, u⟩, hs, h⟩ := bind_eq_ok.1 h
  obtain ⟨⟨ds, v⟩, hb, h⟩ := bind_eq_ok.1 h
  exact ⟨by omega, shape, u, ds, v, hs, hb, h⟩

/-- Where reading a body stops: at a closing bracket or at the end of the text. -/
def Stops (t : Tail) : Prop := ∀ c ∈ t.chars.head?, isClosing c = true

theorem Stops.skip_eq (h : Stops t) : t.skip isSeparator = t :=
  Tail.skip_of_head fun c hc => isSeparator_of_isClosing (h c hc)

/-- What a body begins with: its end, a group or a rune. -/
theorem bodyAt_eq_ok (h : bodyAt limit depth t = .ok (ds, r)) :
    (Stops r ∧ r = t.skip isSeparator ∧ ds = []) ∨
      (∃ b cs d v ds', (t.skip isSeparator).chars = b.opening :: cs ∧
        groupAt limit (depth + 1) b (t.skip isSeparator).offset
          ⟨(t.skip isSeparator).offset + 1, cs⟩ = .ok (d, v) ∧
        bodyAt limit depth v = .ok (ds', r) ∧ ds = d :: ds') ∨
      ∃ c cs ds', (t.skip isSeparator).chars = c :: cs ∧ isWordChar c = true ∧
        bodyAt limit depth ((t.skip isSeparator).skip isWordChar) = .ok (ds', r) ∧
        ds = .rune (String.ofList ((t.skip isSeparator).run isWordChar)) :: ds' := by
  generalize hu : t.skip isSeparator = u
  rw [bodyAt_eq hu] at h
  rcases hc : u.chars with _ | ⟨c, cs⟩ <;> simp only [hc] at h
  · cases h
    exact .inl ⟨by simp [Stops, hc], rfl, rfl⟩
  by_cases hcl : isClosing c
  · rw [if_pos hcl] at h
    cases h
    exact .inl ⟨by simpa [Stops, hc] using hcl, rfl, rfl⟩
  by_cases hdm : c = definitionMark
  · rw [if_neg hcl, if_pos hdm] at h
    cases h
  rw [if_neg hcl, if_neg hdm] at h
  rcases hb : Bracket.ofOpening? c with _ | b <;> simp only [hb] at h
  · split_ifs at h with hw
    obtain ⟨⟨ds', r'⟩, hq, h⟩ := bind_eq_ok.1 h
    cases h
    exact .inr (.inr ⟨c, cs, ds', rfl, hw, hq, rfl⟩)
  · obtain ⟨⟨d, v⟩, hg, h⟩ := bind_eq_ok.1 h
    obtain ⟨⟨ds', r'⟩, hq, h⟩ := bind_eq_ok.1 h
    cases h
    cases Bracket.eq_opening_of_ofOpening? hb
    exact .inr (.inl ⟨b, cs, d, v, ds', rfl, hg, hq, rfl⟩)

theorem length_lt_of_word {c : Char} {cs : List Char} (hc : (t.skip isSeparator).chars = c :: cs)
    (hw : isWordChar c = true) : ((t.skip isSeparator).skip isWordChar).length < t.length :=
  Nat.lt_of_lt_of_le (Tail.length_skip_lt hc hw) (Tail.length_skip_le isSeparator t)

theorem length_lt_of_opening {c : Char} {cs : List Char} {o : Nat}
    (hc : (t.skip isSeparator).chars = c :: cs) : (⟨o, cs⟩ : Tail).length < t.length := by
  have hle := Tail.length_skip_le isSeparator t
  rw [Tail.length_of_chars hc] at hle
  exact hle

theorem stops_of_bodyAt {ds : List Diagram} {t r : Tail}
    (h : bodyAt limit depth t = .ok (ds, r)) : Stops r := by
  rcases bodyAt_eq_ok h with ⟨hs, -⟩ | ⟨b, cs, d, v, ds', hc, hg, hb, -⟩ |
    ⟨c, cs, ds', hc, hw, hb, -⟩
  · exact hs
  · have hlt := Nat.lt_trans (length_groupAt_lt hg) (length_lt_of_opening hc)
    exact stops_of_bodyAt hb
  · have hlt := length_lt_of_word hc hw
    exact stops_of_bodyAt hb
termination_by t.length

end Success

end MagicCircle.Description
