import MagicCircle.Description.Grammar
import MagicCircle.Proofs.Description.Reading

/-!
# Reading follows the grammar

What `bodyAt` and `groupAt` read is a body and a group of the grammar (`bodyText_of_bodyAt`,
`groupText_of_groupAt`), and they read every one of them as a whole (`bodyAt_of_bodyText`,
`groupAt_of_groupText`). So a text is read as a diagram exactly if the grammar says that it
describes the diagram (`read_eq_ok_iff_describes`).
-/

namespace MagicCircle.Description

open Text Text.Tail

theorem composed_iff {shape : Shape} {ds : List Diagram} {d : Diagram} :
    Composed shape ds d ↔ Diagram.group shape ds = .ok d := by
  constructor
  · rintro (_ | _) <;> rfl
  · intro h
    unfold Diagram.group at h
    split at h <;> cases h
    · exact .solo _
    · exact .pair _ _

theorem shape?_of_composed {shape : Shape} {ds : List Diagram} {d : Diagram}
    (h : Composed shape ds d) : d.shape? = some shape := by
  rcases h with _ | _ <;> rfl

theorem ofMark?_eq_some {w : List Char} {t : Triangle} (h : Triangle.ofMark? w = some t) :
    Head .angle (w ++ [':']) (.triangle t) := by
  unfold Triangle.ofMark? at h
  split at h <;> cases h
  · exact .target
  · exact .duration
  · exact .restriction

/-- A group is a spell exactly if its bracket is round. -/
theorem GroupText.exists_opening {n : Nat} {w : List Char} {d : Diagram} (h : GroupText n w d) :
    ∃ b body, w = Bracket.opening b :: body ∧ (d.shape? = some .spell ↔ b = .round) := by
  rcases h with ⟨n, b, head, body, shape, ds, _, hhead, -, hd⟩
  refine ⟨b, _, rfl, ?_⟩
  rw [shape?_of_composed hd]
  cases hhead <;> simp

theorem BodyText.separators {n : Nat} {w rest : List Char} {ds : List Diagram}
    (hw : ∀ c ∈ w, isSeparator c = true) (h : BodyText n rest ds) : BodyText n (w ++ rest) ds := by
  induction w with
  | nil => exact h
  | cons c w ih =>
    simp only [List.mem_cons, forall_eq_or_imp] at hw
    exact .separator n c _ ds hw.1 (ih hw.2)

section Soundness

variable {limit depth start : Nat} {b : Bracket} {shape : Shape} {d : Diagram}
  {ds : List Diagram} {t r : Tail}

theorem head_of_headAt (h : headAt b t = .ok (shape, r)) :
    ∃ w, Head b w shape ∧ t.Spans w r := by
  cases b with
  | round =>
    cases h
    exact ⟨[], .round, Spans.refl t⟩
  | square =>
    cases h
    exact ⟨[], .square, Spans.refl t⟩
  | angle =>
    rw [headAt_angle rfl] at h
    split at h
    · rename_i cs hc
      split_ifs at h
      split at h <;> cases h
      rename_i triangle ht
      exact ⟨_, ofMark?_eq_some ht, (spans_skip isWordChar t).trans (spans_cons hc)⟩
    · cases h

/-- A group that is read is one of the grammar, if the bodies read inside it are. -/
theorem groupText_of_groupAt
    (ih : ∀ ds u v, u.length ≤ t.length → bodyAt limit depth u = .ok (ds, v) →
      ∃ w, u.Spans w v ∧ BodyText (limit - depth) w ds)
    (h : groupAt limit depth b start t = .ok (d, r)) :
    ∃ w, t.Spans w r ∧ GroupText (limit + 1 - depth) (b.opening :: w) d := by
  obtain ⟨hd, shape, u, ds, v, hu, hb, hcl⟩ := groupAt_eq_ok h
  obtain ⟨head, hhead, hsu⟩ := head_of_headAt hu
  obtain ⟨body, hsv, hbody⟩ := ih ds u v (length_headAt_le hu) hb
  obtain ⟨cs, hc, rfl, hg⟩ := closeAt_eq_ok hcl
  have hsr := (hsu.trans hsv).trans (spans_cons hc)
  rw [Bracket.utf8Size_closing] at hsr
  have hn : limit + 1 - depth = limit - depth + 1 := by omega
  rw [hn]
  exact ⟨_, hsr, .mk _ b head body shape ds d hhead hbody (composed_iff.2 hg)⟩

/-- What is read in a body is a body of the grammar. -/
theorem bodyText_of_bodyAt {limit depth : Nat} {ds : List Diagram} {t r : Tail}
    (h : bodyAt limit depth t = .ok (ds, r)) :
    ∃ w, t.Spans w r ∧ BodyText (limit - depth) w ds := by
  have hsep : ∀ c ∈ t.run isSeparator, isSeparator c = true := fun _ => forall_mem_run
  have hskip := spans_skip isSeparator t
  rcases bodyAt_eq_ok h with ⟨-, rfl, rfl⟩ | ⟨b, cs, d, v, ds', hc, hg, hb, rfl⟩ |
    ⟨c, cs, ds', hc, hw, hb, rfl⟩
  · refine ⟨_, hskip, ?_⟩
    simpa using BodyText.separators hsep (.nil (limit - depth))
  · have hlt := length_lt_of_opening (o := (t.skip isSeparator).offset + 1) hc
    have hltv := Nat.lt_trans (length_groupAt_lt hg) hlt
    obtain ⟨w, hsw, hgroup⟩ := groupText_of_groupAt
      (fun ds u v hle hu => by
        have hltu := Nat.lt_of_le_of_lt hle hlt
        exact bodyText_of_bodyAt hu) hg
    obtain ⟨w', hsw', hbody⟩ := bodyText_of_bodyAt hb
    have hopen := spans_cons hc
    rw [Bracket.utf8Size_opening] at hopen
    rw [Nat.add_sub_add_right] at hgroup
    exact ⟨_, hskip.trans ((hopen.trans hsw).trans hsw'),
      BodyText.separators hsep (.group _ _ w' d ds' hgroup hbody)⟩
  · have hlt := length_lt_of_word hc hw
    obtain ⟨w', hsw', hbody⟩ := bodyText_of_bodyAt hb
    have hword := spans_skip isWordChar (t.skip isSeparator)
    have hne : (t.skip isSeparator).run isWordChar ≠ [] := by simp [run, hc, hw]
    exact ⟨_, hskip.trans (hword.trans hsw'), BodyText.separators hsep
      (.rune _ _ w' ds' hne (fun _ => forall_mem_run) (fun _ hd => head_skip (hsw'.mem_head hd))
        hbody)⟩
termination_by t.length

end Soundness

section Completeness

variable {limit depth n o : Nat} {b : Bracket} {shape : Shape} {ds : List Diagram}
  {w cs : List Char}

theorem headAt_mark {c : Char} {t : Triangle} (hc : isWordChar c = true)
    (ht : Triangle.ofMark? [c] = some t) :
    headAt .angle ⟨o, c :: ':' :: cs⟩ =
      .ok (.triangle t, ⟨o + byteCount [c, ':'], cs⟩) := by
  have hw : ∀ a ∈ [c], isWordChar a = true := by simpa using hc
  have hcolon : ∀ a ∈ (':' :: cs).head?, isWordChar a = false := by
    rintro a ⟨⟩
    rfl
  have hrun := run_append (o := o) hw hcolon
  have hskip := skip_append (o := o) hw hcolon
  rw [List.singleton_append] at hrun hskip
  have hcount : byteCount [c, ':'] = byteCount [c] + 1 := byteCount_append [c] [':']
  simp only [headAt_angle hskip, hrun, ht, hcount, Nat.add_assoc, List.cons_ne_nil, if_false]

theorem headAt_of_head (h : Head b w shape) :
    headAt b ⟨o, w ++ cs⟩ = .ok (shape, ⟨o + byteCount w, cs⟩) := by
  cases h with
  | round => rfl
  | square => rfl
  | target => exact headAt_mark rfl rfl
  | duration => exact headAt_mark rfl rfl
  | restriction => exact headAt_mark rfl rfl

theorem bodyAt_of_stops {t : Tail} (h : Stops t) : bodyAt limit depth t = .ok ([], t) := by
  rw [bodyAt_eq h.skip_eq]
  rcases t with ⟨o, _ | ⟨c, cs⟩⟩
  · rfl
  · simp only [h c rfl, if_true]

theorem bodyAt_skip (t : Tail) :
    bodyAt limit depth (t.skip isSeparator) = bodyAt limit depth t := by
  rw [bodyAt_eq rfl, bodyAt_eq (t := t) rfl, skip_skip]

theorem bodyAt_separator {c : Char} (hc : isSeparator c = true) :
    bodyAt limit depth ⟨o, c :: cs⟩ = bodyAt limit depth ⟨o + c.utf8Size, cs⟩ := by
  have hskip : skip isSeparator ⟨o, c :: cs⟩ = skip isSeparator ⟨o + c.utf8Size, cs⟩ := by
    simp [skip, hc, byteCount_cons, Nat.add_assoc]
  rw [← bodyAt_skip, hskip, bodyAt_skip]

theorem bodyAt_opening :
    bodyAt limit depth ⟨o, b.opening :: cs⟩ =
      groupAt limit (depth + 1) b o ⟨o + 1, cs⟩ >>= fun p =>
        bodyAt limit depth p.2 >>= fun q => .ok (p.1 :: q.1, q.2) := by
  have hskip : skip isSeparator ⟨o, b.opening :: cs⟩ = ⟨o, b.opening :: cs⟩ :=
    skip_of_head (by simp)
  rw [bodyAt_eq hskip]
  simp [Bracket.opening_ne_definitionMark]

theorem bodyAt_word (hne : w ≠ []) (hw : ∀ c ∈ w, isWordChar c = true)
    (hcs : ∀ c ∈ cs.head?, isWordChar c = false) :
    bodyAt limit depth ⟨o, w ++ cs⟩ =
      bodyAt limit depth ⟨o + byteCount w, cs⟩ >>= fun q =>
        .ok (.rune (String.ofList w) :: q.1, q.2) := by
  have hrun := run_append (o := o) hw hcs
  have hafter := skip_append (o := o) hw hcs
  rcases w with _ | ⟨c, w⟩
  · exact absurd rfl hne
  have hc := hw c List.mem_cons_self
  have hskip : skip isSeparator ⟨o, c :: w ++ cs⟩ = ⟨o, c :: w ++ cs⟩ :=
    skip_of_head (by simpa using isSeparator_of_isWordChar hc)
  have hdm : c ≠ definitionMark := ne_of_isWordChar hc rfl
  rw [bodyAt_eq hskip, hrun, hafter]
  simp [isClosing_of_isWordChar hc, hdm, ofOpening?_of_isWordChar hc, hc]

theorem closeAt_of_closing {components : List Diagram} {start : Nat} {d : Diagram}
    (h : Composed shape components d) :
    closeAt b start shape components ⟨o, b.closing :: cs⟩ = .ok (d, ⟨o + 1, cs⟩) := by
  simp only [closeAt, composed_iff.1 h, if_true]

mutual

/-- A group of the grammar is read as a whole, whatever follows it. -/
theorem groupAt_of_groupText {n depth : Nat} {b : Bracket} {v w cs : List Char} {d : Diagram}
    {start o : Nat} (h : GroupText n v d) (hv : v = b.opening :: w) (hn : depth + n ≤ limit + 1) :
    groupAt limit depth b start ⟨o, w ++ cs⟩ = .ok (d, ⟨o + byteCount w, cs⟩) := by
  match h with
  | .mk n b' head body shape ds _ hhead hbody hd =>
    obtain ⟨hb, rfl⟩ := List.cons.inj hv
    obtain rfl := Bracket.opening_injective hb
    have hstop : Stops ⟨o + byteCount head + byteCount body, b'.closing :: cs⟩ := by
      simp [Stops]
    have hread : bodyAt limit depth ⟨o + byteCount head, body ++ b'.closing :: cs⟩ = _ :=
      bodyAt_of_bodyText hbody (by omega) hstop
    have hlist : head ++ body ++ [b'.closing] ++ cs = head ++ (body ++ b'.closing :: cs) := by
      simp
    have hcount : byteCount (head ++ body ++ [b'.closing]) =
        byteCount head + byteCount body + 1 := by
      rw [byteCount_append, byteCount_append, byteCount_cons, Bracket.utf8Size_closing]
      rfl
    rw [groupAt_eq, if_neg (by omega), hlist, headAt_of_head hhead, hcount]
    simp only [bind, Except.bind, hread, closeAt_of_closing hd, Nat.add_assoc]

/-- A body of the grammar is read as a whole, if nothing that could belong to it follows. -/
theorem bodyAt_of_bodyText {n depth : Nat} {w cs : List Char} {ds : List Diagram} {o : Nat}
    (h : BodyText n w ds) (hn : depth + n ≤ limit)
    (hcs : Stops ⟨o + byteCount w, cs⟩) :
    bodyAt limit depth ⟨o, w ++ cs⟩ = .ok (ds, ⟨o + byteCount w, cs⟩) := by
  match h with
  | .nil _ => exact bodyAt_of_stops hcs
  | .separator _ c rest _ hc hrest =>
    rw [byteCount_cons, ← Nat.add_assoc] at hcs ⊢
    rw [List.cons_append, bodyAt_separator hc]
    exact bodyAt_of_bodyText hrest hn hcs
  | .rune _ word rest ds hne hw hhead hrest =>
    rw [byteCount_append, ← Nat.add_assoc] at hcs ⊢
    have hcont : ∀ c ∈ (rest ++ cs).head?, isWordChar c = false := by
      intro c hc
      rcases rest with _ | ⟨a, rest⟩
      · exact isWordChar_of_isClosing (hcs c hc)
      · exact hhead c hc
    rw [List.append_assoc, bodyAt_word hne hw hcont, bodyAt_of_bodyText hrest hn hcs]
    rfl
  | .group _ w rest d ds hd hrest =>
    obtain ⟨b, body, hw, -⟩ := hd.exists_opening
    have hcount : byteCount (w ++ rest) = 1 + byteCount body + byteCount rest := by
      rw [hw, byteCount_append, byteCount_cons, Bracket.utf8Size_opening]
    rw [hcount, ← Nat.add_assoc, ← Nat.add_assoc] at hcs ⊢
    have hread : groupAt limit (depth + 1) b o ⟨o + 1, body ++ (rest ++ cs)⟩ = _ :=
      groupAt_of_groupText hd hw (by omega)
    rw [hw, List.append_assoc, List.cons_append, bodyAt_opening, hread]
    simp only [bind, Except.bind, bodyAt_of_bodyText hrest hn hcs]

end

end Completeness

section WholeTexts

variable {limit : Nat} {text : List Char} {d e : Diagram} {r : Tail}

theorem endAt_eq_ok : endAt d r = .ok e ↔ d = e ∧ ∀ c ∈ r.chars, isSpace c = true := by
  unfold endAt
  constructor
  · intro h
    split at h <;> cases h
    rename_i hr
    refine ⟨rfl, fun c hc => ?_⟩
    have hspan := (spans_skip isSpace r).1
    rw [hr, List.append_nil] at hspan
    rw [hspan] at hc
    exact forall_mem_run hc
  · rintro ⟨rfl, h⟩
    have hr : (r.skip isSpace).chars = [] := List.dropWhile_eq_nil_iff.2 h
    rw [hr]

theorem describes_of_read (h : read limit text = .ok d) : Describes limit text d := by
  generalize ht : (ofChars text).skip isSpace = t at *
  have hbefore := spans_skip isSpace (ofChars text)
  rw [ht] at hbefore
  rw [read_eq ht] at h
  rcases hc : t.chars with _ | ⟨c, cs⟩ <;> simp only [hc] at h
  · cases h
  split_ifs at h with hround
  subst hround
  obtain ⟨⟨d', r⟩, hg, hend⟩ := bind_eq_ok.1 h
  obtain ⟨rfl, hafter⟩ := endAt_eq_ok.1 hend
  obtain ⟨w, hw, hgroup⟩ := groupText_of_groupAt (fun _ _ _ _ hu => bodyText_of_bodyAt hu) hg
  have hspan := (hbefore.trans ((spans_cons hc).trans hw)).1
  obtain ⟨b, body, hb, hspell⟩ := hgroup.exists_opening
  refine ⟨(ofChars text).run isSpace, _, r.chars, ?_, fun _ => forall_mem_run, hafter, hgroup, ?_⟩
  · simpa [ofChars] using hspan
  · exact hspell.2 (Bracket.opening_injective (List.cons.inj hb).1).symm

theorem read_of_describes (h : Describes limit text d) : read limit text = .ok d := by
  obtain ⟨before, w, after, rfl, hbefore, hafter, hgroup, hspell⟩ := h
  obtain ⟨b, body, rfl, hb⟩ := hgroup.exists_opening
  obtain rfl := hb.1 hspell
  have hskip : (ofChars (before ++ Bracket.round.opening :: body ++ after)).skip isSpace =
      ⟨0 + byteCount before, Bracket.round.opening :: (body ++ after)⟩ := by
    rw [List.append_assoc]
    refine skip_append hbefore ?_
    rintro c ⟨⟩
    rfl
  have hread : groupAt limit 1 .round (0 + byteCount before)
      ⟨0 + byteCount before + 1, body ++ after⟩ = _ :=
    groupAt_of_groupText hgroup rfl (by omega)
  simp only [read_eq hskip, if_true, hread, bind, Except.bind]
  exact endAt_eq_ok.2 ⟨rfl, hafter⟩

end WholeTexts

/-- A text is read as a diagram exactly if it describes the diagram: reading accepts the grammar,
nothing but the grammar, and gives each text the diagram the grammar gives it. -/
theorem read_eq_ok_iff_describes (limit : Nat) (text : List Char) (d : Diagram) :
    read limit text = .ok d ↔ Describes limit text d :=
  ⟨describes_of_read, read_of_describes⟩

end MagicCircle.Description
