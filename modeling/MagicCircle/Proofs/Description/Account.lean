import MagicCircle.Description.Account
import MagicCircle.Proofs.Description.Grammar
import MagicCircle.Proofs.Description.Scanner
import MagicCircle.Proofs.Text.Scan

/-!
# Reading ends and its account is sound

`Ends` says of steps of reading how they end, that all they add to the account is sound, and how many
groups are being read then. There is one such lemma for each function (`scan_ends`, `mark_ends`,
`head_ends`, `close_ends`, `group_ends`, `components_ends`). What they come to is what the reader over
tails comes to, so that all of reading ends as `read` says (`read_ends`), by a clock that is longer than
twice the text. A clock that is longer still makes no difference (`read_approximates`).
-/

namespace MagicCircle.Description.Account

open Text (IsBoundary Tail byteCount charAt?)
open Text.Tail (Spans)

variable {α β γ : Type} {limit : Nat} {text : List Char} {k n : Nat} {es : List Entry}

/-! ## How steps end -/

/-- After an account `es` the steps end with `r`. What they add to the account is sound, and if they
end well, `n` groups are being read then. -/
def Ends (limit : Nat) (text : List Char) (n : Nat) (m : Steps α) (es : List Entry)
    (r : Except ReadError α) : Prop :=
  ∃ es', m.run.run es = some (r, es') ∧ (∀ e ∈ es', e ∈ es ∨ e.Sound limit text) ∧
    ∀ a, r = .ok a → level es' = n

namespace Ends

theorem pure (a : α) (hn : level es = n) : Ends limit text n (pure a) es (.ok a) :=
  ⟨es, rfl, fun _ => .inl, fun _ _ => hn⟩

theorem throw (e : ReadError) : Ends limit text n (throw e : Steps α) es (.error e) :=
  ⟨es, rfl, fun _ => .inl, nofun⟩

/-- Steps end as their parts do one after the other. -/
theorem bind {m : Steps α} {f : α → Steps β} {x : Except ReadError γ} {g : γ → α}
    {y : γ → Except ReadError β} (hm : Ends limit text k m es (x.map g))
    (hf : ∀ a es', x = .ok a → level es' = k → Ends limit text n (f (g a)) es' (y a)) :
    Ends limit text n (m >>= f) es (x >>= y) := by
  obtain ⟨es', hrun, hsound, hlevel⟩ := hm
  rcases x with e | a
  · refine ⟨es', ?_, hsound, nofun⟩
    simp only [ExceptT.run_bind, StateT.run_bind, hrun]
    rfl
  · obtain ⟨es'', hrun', hsound', hlevel'⟩ := hf a es' rfl (hlevel _ rfl)
    refine ⟨es'', ?_, fun e he => ?_, hlevel'⟩
    · simp only [ExceptT.run_bind, StateT.run_bind, hrun]
      exact hrun'
    · rcases hsound' e he with he' | he'
      · exact hsound e he'
      · exact .inr he'

theorem step {m : Steps α} {f : α → Steps β} {a : α} {r : Except ReadError β}
    (hm : Ends limit text k m es (.ok a))
    (hf : ∀ es', level es' = k → Ends limit text n (f a) es' r) :
    Ends limit text n (m >>= f) es r :=
  bind (x := .ok a) (g := id) (y := fun _ => r) hm fun _ es' ha hl => by
    cases ha
    exact hf es' hl

theorem fault {m : Steps α} {f : α → Steps β} {e : ReadError}
    (hm : Ends limit text k m es (.error e)) : Ends limit text n (m >>= f) es (.error e) :=
  bind (x := .error e) (g := id) (y := fun _ => .error e) hm nofun

end Ends

theorem note_ends {e : Entry} (he : e.Sound limit text) (hn : level (e :: es) = n) :
    Ends limit text n (note e) es (.ok ()) :=
  ⟨e :: es, rfl, List.forall_mem_cons.2 ⟨.inr he, fun _ => .inl⟩, fun _ _ => hn⟩

theorem enter_ends {start : Nat} (hn : level es + 1 = n) (hlimit : n ≤ limit + 1)
    (hsize : n ≤ byteCount text) : Ends limit text n (enter start n) es (.ok ()) := by
  subst hn
  exact note_ends (e := .entered start _ _) ⟨rfl, hlimit, hsize⟩ rfl

theorem take_ends {start finish : Nat} (hn : level es = n) (hlt : start < finish)
    (hs : IsBoundary text start) (hf : IsBoundary text finish) :
    Ends limit text n (take text start finish) es (.ok (Text.slice text start finish)) :=
  (note_ends (e := .taken start finish) ⟨hlt, hs, hf⟩ hn).step fun _ hn => .pure _ hn

theorem map_eq_bind (x : Except ReadError α) (g : α → β) :
    x.map g = x >>= fun a => .ok (g a) := by
  cases x <;> rfl

theorem map_bind (x : Except ReadError α) (f : α → Except ReadError β) (g : β → γ) :
    (x >>= f).map g = x >>= fun a => (f a).map g := by
  cases x <;> rfl

/-! ## Tails of a text -/

theorem of_opening {b : Bracket} {start : Nat} {cs : List Char}
    (ht : (⟨start, b.opening :: cs⟩ : Tail).Of text) : (⟨start + 1, cs⟩ : Tail).Of text := by
  have h := ht.spans (Text.Tail.spans_cons rfl)
  rwa [b.utf8Size_opening] at h

/-- What a group leaves of a text is a tail of it that starts after the group's own bracket. -/
theorem of_groupAt {b : Bracket} {start depth : Nat} {cs : List Char} {q : Diagram × Tail}
    (ht : (⟨start, b.opening :: cs⟩ : Tail).Of text)
    (hq : groupAt limit depth b start ⟨start + 1, cs⟩ = .ok q) :
    q.2.Of text ∧ start < q.2.offset := by
  obtain ⟨w, hspan, -⟩ := groupText_of_groupAt (fun _ _ _ _ hu => bodyText_of_bodyAt hu) hq
  exact ⟨(of_opening ht).spans hspan, hspan.le⟩

section Words

variable (hsize : byteCount text < wordSize / 2)
include hsize

theorem mod_wordSize {m : Nat} (h : m ≤ byteCount text) : m % wordSize = m :=
  Nat.mod_eq_of_lt (by omega)

theorem move_ends {pos length : Nat} (hn : level es = n) (h : IsBoundary text (pos + length)) :
    Ends limit text n (move pos length) es (.ok (pos + length)) :=
  (note_ends (e := .moved pos length) ⟨h.le, h⟩ hn).step fun _ hn => by
    rw [mod_wordSize hsize h.le]
    exact .pure _ hn

theorem move_to_ends {pos : Nat} {r : Tail} (hn : level es = n) (hr : r.Of text)
    (hle : pos ≤ r.offset) :
    Ends limit text n (move pos (r.offset - pos)) es (.ok r.offset) := by
  have hback : pos + (r.offset - pos) = r.offset := Nat.add_sub_cancel' hle
  have hmove : Ends limit text n (move pos (r.offset - pos)) es (.ok (pos + (r.offset - pos))) :=
    move_ends hsize hn (by rw [hback]; exact hr.isBoundary)
  rwa [hback] at hmove

theorem measure_ends {start finish : Nat} (hn : level es = n) (hle : start ≤ finish)
    (hf : finish ≤ byteCount text) :
    Ends limit text n (measure start finish) es (.ok (finish - start)) :=
  (note_ends (e := .measured start finish) ⟨hle, hf⟩ hn).step fun _ hn => by
    rw [Nat.sub_add_comm hle, Nat.add_mod_right, mod_wordSize hsize (by omega)]
    exact .pure _ hn

theorem deepen_ends {depth : Nat} (hn : level es = n) (h : depth + 1 ≤ byteCount text) :
    Ends limit text n (deepen depth) es (.ok (depth + 1)) :=
  (note_ends (e := .deepened depth) h hn).step fun _ hn => by
    rw [mod_wordSize hsize h]
    exact .pure _ hn

/-! ## Positions are those of tails -/

theorem scan_ends {p : Char → Bool} : ∀ {clock : Nat} {t : Tail} {es : List Entry},
    t.length < clock → level es = n → t.Of text →
    Ends limit text n (scan p text clock t.offset) es (.ok (t.skip p).offset)
  | 0, t, _, hclock, _, _ => absurd hclock (Nat.not_lt_zero t.length)
  | clock + 1, ⟨o, []⟩, es, _, hn, ht => by
    rw [scan, ht.charAt?_eq]
    exact .pure _ hn
  | clock + 1, ⟨o, c :: cs⟩, es, hclock, hn, ht => by
    rw [scan, ht.charAt?_eq]
    by_cases hc : p c = true
    · have hrest := ht.spans (Text.Tail.spans_cons (t := ⟨o, c :: cs⟩) rfl)
      have hskip : (Tail.skip p ⟨o, c :: cs⟩).offset = (Tail.skip p ⟨o + c.utf8Size, cs⟩).offset := by
        simp [Tail.skip, hc, byteCount, Nat.add_assoc]
      have hclock' : cs.length < clock := Nat.lt_of_succ_lt_succ hclock
      simp only [List.head?_cons, hc, if_true, hskip]
      exact (move_ends hsize hn hrest.isBoundary).step fun _ hn => scan_ends hclock' hn hrest
    · have hskip : (Tail.skip p ⟨o, c :: cs⟩).offset = o := by simp [Tail.skip, hc, byteCount]
      simp only [List.head?_cons, hc, hskip]
      exact .pure _ hn

theorem mark_ends {clock : Nat} {t : Tail} (hclock : t.length < clock) (hn : level es = n)
    (ht : t.Of text) : Ends limit text n (mark text clock t.offset) es
      ((headAt .angle t).map fun q => (q.1, q.2.offset - t.offset)) := by
  have hspan := Text.Tail.spans_skip isWordChar t
  have hu := ht.skip isWordChar
  rw [headAt_angle rfl, mark]
  refine (scan_ends hsize hclock hn ht).step fun es' hn => ?_
  generalize t.skip isWordChar = u at hspan hu ⊢
  generalize t.run isWordChar = w at hspan ⊢
  rw [hu.charAt?_eq]
  rcases hc : u.chars with _ | ⟨c, cs⟩
  · rw [if_pos (.inr (by simp))]
    exact .throw _
  by_cases hcolon : c = ':'
  · subst hcolon
    have hrest := hu.spans (Text.Tail.spans_cons hc)
    by_cases hw : w = []
    · have hstay : u.offset = t.offset := by rw [hspan.2, hw, byteCount, Nat.add_zero]
      simp only [hw, hstay, true_or, if_true]
      exact .throw _
    have hlt : t.offset < u.offset := hspan.lt hw
    have hcond : ¬ (u.offset = t.offset ∨ (':' :: cs).head? ≠ some ':') := by
      simp only [List.head?_cons, ne_eq, not_true_eq_false, or_false]
      omega
    rw [if_neg hcond]
    simp only [hw, if_false]
    refine (take_ends hn hlt ht.isBoundary hu.isBoundary).step fun _ hn => ?_
    rw [ht.slice_eq hspan]
    rcases Triangle.ofMark? w with _ | triangle
    · exact .throw _
    · refine (move_ends hsize hn hrest.isBoundary).step fun _ hn => ?_
      have hle : t.offset ≤ u.offset + 1 := Nat.le_succ_of_le hlt.le
      exact (measure_ends hsize hn hle hrest.offset_le).step fun _ hn => .pure _ hn
  · rw [if_pos (.inr (by simpa using hcolon))]
    split
    · rename_i heq
      exact absurd (List.cons.inj heq).1 hcolon
    · exact .throw _

theorem word_ends {clock : Nat} {t : Tail} {c : Char} {cs : List Char} (hclock : t.length < clock)
    (hn : level es = n) (ht : t.Of text) (hc : t.chars = c :: cs) (hw : isWordChar c) :
    Ends limit text n (word text clock t.offset) es
      (.ok (t.run isWordChar, (t.skip isWordChar).offset)) := by
  have hspan := Text.Tail.spans_skip isWordChar t
  have hne : t.run isWordChar ≠ [] := by simp [Tail.run, hc, hw]
  refine (scan_ends hsize hclock hn ht).step fun es' hn => ?_
  refine (take_ends hn (hspan.lt hne) ht.isBoundary (ht.skip isWordChar).isBoundary).step
    fun _ hn => ?_
  rw [ht.slice_eq hspan]
  exact .pure _ hn

theorem head_ends {b : Bracket} {clock : Nat} {t : Tail} (hclock : t.length < clock)
    (hn : level es = n) (ht : t.Of text) :
    Ends limit text n (head text b clock t.offset) es
      ((headAt b t).map fun q => (q.1, q.2.offset)) := by
  cases b with
  | round => exact .pure _ hn
  | square => exact .pure _ hn
  | angle =>
    rw [head, map_eq_bind]
    refine (mark_ends hsize hclock hn ht).bind fun q es' hq hn => ?_
    obtain ⟨w, -, hspan⟩ := head_of_headAt hq
    exact (move_to_ends hsize hn (ht.spans hspan) hspan.le).step fun _ hn => .pure _ hn

theorem close_ends {b : Bracket} {start : Nat} {shape : Shape} {ds : List Diagram} {r : Tail}
    (hn : level es = n + 1) (hr : r.Of text) (hle : start ≤ r.offset) :
    Ends limit text n (close text b start shape ds r.offset) es
      ((closeAt b start shape ds r).map fun q => (q.1, q.2.offset - start)) := by
  rw [close, closeAt, hr.charAt?_eq]
  rcases hc : r.chars with _ | ⟨c, cs⟩
  · exact .throw _
  by_cases hclose : c = b.closing
  · subst hclose
    simp only [List.head?_cons, if_true]
    rcases Diagram.group shape ds with e | d
    · exact .throw _
    have hrest := hr.spans (Text.Tail.spans_cons hc)
    refine (move_ends hsize hn hrest.isBoundary).step fun _ hn => ?_
    rw [b.utf8Size_closing] at hrest ⊢
    have hle : start ≤ r.offset + 1 := Nat.le_succ_of_le hle
    refine (measure_ends hsize hn hle hrest.offset_le).step fun es' hn => ?_
    have hleft : level (.left :: es') = n := by rw [level, hn, Nat.add_sub_cancel]
    exact (note_ends (e := .left) trivial hleft).step fun _ hn => .pure _ hn
  · simp only [List.head?_cons, hclose, if_false]
    exact .throw _

/-- A group ends as its components do. -/
theorem group_ends {b : Bracket} {clock start : Nat} {cs : List Char}
    (hcomponents : ∀ u es, u.length ≤ cs.length → u.Of text → level es = n → n ≤ limit →
      n ≤ u.offset → Ends limit text n (components limit text n u.offset clock [] u.offset) es
        ((bodyAt limit n u).map fun q => (q.1, q.2.offset - u.offset)))
    (hclock : cs.length < clock) (ht : (⟨start, b.opening :: cs⟩ : Tail).Of text)
    (hn : level es + 1 = n) (hlimit : n ≤ limit + 1) (hdepth : n ≤ start + 1) :
    Ends limit text (level es) (group limit text (clock + 1) start n) es
      ((groupAt limit n b start ⟨start + 1, cs⟩).map fun q => (q.1, q.2.offset - start)) := by
  have hrest := of_opening ht
  have hstart : start + 1 ≤ byteCount text := hrest.offset_le
  rw [group, groupAt_eq]
  refine (enter_ends hn hlimit (by omega)).step fun es₁ hn₁ => ?_
  rw [ht.charAt?_eq]
  simp only [List.head?_cons, b.opening_ne_definitionMark, if_false]
  by_cases hdeep : limit < n
  · rw [if_pos hdeep, if_pos hdeep]
    exact .throw _
  rw [if_neg hdeep, if_neg hdeep, b.utf8Size_opening]
  refine (move_ends hsize hn₁ hrest.isBoundary).step fun es₂ hn₂ => ?_
  simp only [Bracket.ofOpening?_opening]
  rw [map_bind]
  refine (head_ends hsize hclock hn₂ hrest).bind fun q es₃ hq hn₃ => ?_
  obtain ⟨w, -, hhead⟩ := head_of_headAt hq
  have hu := hrest.spans hhead
  have hoffset : start + 1 ≤ q.2.offset := hhead.le
  rw [map_bind]
  refine (hcomponents q.2 es₃ (length_headAt_le hq) hu hn₃ (by omega) (by omega)).bind
    fun p es₄ hp hn₄ => ?_
  obtain ⟨w', hbody, -⟩ := bodyText_of_bodyAt hp
  have hr := hu.spans hbody
  have hle := hbody.le
  refine (move_to_ends hsize hn₄ hr hle).step fun es₅ hn₅ => ?_
  exact close_ends hsize (hn₅.trans hn.symm) hr (by omega)

/-- A group among components takes the loop over them past itself. -/
theorem nested_ends {b : Bracket} {clock start pos : Nat} {cs : List Char}
    {f : Diagram → Nat → Steps β} {y : Diagram × Tail → Except ReadError β}
    (hcomponents : ∀ u es, u.length ≤ cs.length → u.Of text → level es = n + 1 → n + 1 ≤ limit →
      n + 1 ≤ u.offset →
      Ends limit text (n + 1) (components limit text (n + 1) u.offset clock [] u.offset) es
        ((bodyAt limit (n + 1) u).map fun q => (q.1, q.2.offset - u.offset)))
    (hclock : cs.length < clock) (ht : (⟨start, b.opening :: cs⟩ : Tail).Of text)
    (hn : level es = n) (hlimit : n ≤ limit) (hdepth : n ≤ start) (hpos : pos ≤ start)
    (hf : ∀ q es', groupAt limit (n + 1) b start ⟨start + 1, cs⟩ = .ok q → level es' = n →
      q.2.Of text → start < q.2.offset → Ends limit text n (f q.1 q.2.offset) es' (y q)) :
    Ends limit text n (do
      let (d, length) ← group limit text (clock + 1) start (← deepen n)
      let finish ← move start length
      note (.passed pos finish)
      f d finish) es (groupAt limit (n + 1) b start ⟨start + 1, cs⟩ >>= y) := by
  have hstart : start + 1 ≤ byteCount text := (of_opening ht).offset_le
  refine (deepen_ends hsize hn (by omega)).step fun es₁ hn₁ => ?_
  refine (group_ends hsize hcomponents hclock ht (by omega) (by omega) (by omega)).bind
    fun q es₂ hq hn₂ => ?_
  obtain ⟨hr, hlt⟩ := of_groupAt ht hq
  refine (move_to_ends hsize hn₂ hr hlt.le).step fun es₃ hn₃ => ?_
  refine (note_ends (e := .passed pos _) (Nat.lt_of_le_of_lt hpos hlt) hn₃).step fun es₄ hn₄ => ?_
  exact hf q es₄ hq (hn₄.trans hn₁) hr hlt

omit hsize in
/-- Where a definition would begin, the reading of a group ends at once. -/
theorem definition_ends {clock start : Nat} (hmark : charAt? text start = some definitionMark)
    (hn : level es + 1 = n) (hlimit : n ≤ limit + 1) (hdepth : n ≤ byteCount text) :
    Ends limit text n (group limit text (clock + 1) start n) es
      (.error (.fault (.definitionsUnsupported start))) := by
  rw [group]
  refine (enter_ends hn hlimit hdepth).step fun _ _ => ?_
  rw [hmark]
  exact .throw _

omit hsize in
theorem map_cons (x : Except ReadError (List Diagram × Tail)) (read : List Diagram) (d : Diagram)
    (start : Nat) :
    (x >>= fun q => .ok (d :: q.1, q.2)).map (fun q => (read ++ q.1, q.2.offset - start)) =
      x.map fun q => (read ++ [d] ++ q.1, q.2.offset - start) := by
  rcases x with e | q
  · rfl
  · simp [Except.map, bind, Except.bind]

/-- From the tail `t` on, components are read in the `n` groups that are being read. All of these
began before the tail, so there are no more of them than bytes. The clock runs down once for a pass of
the loop and once for a group, and each pass and each group has a character of its own. -/
theorem components_ends {n clock : Nat} {es : List Entry} (start : Nat) (read : List Diagram)
    (t : Tail) (hclock : 2 * t.length + 1 < clock) (ht : t.Of text) (hn : level es = n)
    (hlimit : n ≤ limit) (hdepth : n ≤ t.offset) (hstart : start ≤ t.offset) :
    Ends limit text n (components limit text n start clock read t.offset) es
      ((bodyAt limit n t).map fun q => (read ++ q.1, q.2.offset - start)) := by
  have hskip := (Text.Tail.spans_skip isSeparator t).le
  have hshrink := Tail.length_skip_le isSeparator t
  have hu := ht.skip isSeparator
  -- one for this pass, and one for the group that may begin in it
  obtain ⟨clock, rfl⟩ : ∃ k, clock = k + 2 := ⟨clock - 2, by omega⟩
  rw [components]
  refine (scan_ends hsize (by omega) hn ht).step fun es₁ hn₁ => ?_
  generalize hut : t.skip isSeparator = u at hskip hshrink hu ⊢
  have hend : Ends limit text n (do return (read, ← measure start u.offset)) es₁
      (.ok (read ++ [], u.offset - start)) := by
    rw [List.append_nil]
    exact (measure_ends hsize hn₁ (by omega) hu.offset_le).step fun _ hn => .pure _ hn
  rw [bodyAt_eq hut, hu.charAt?_eq]
  rcases hc : u.chars with _ | ⟨c, cs⟩
  · exact hend
  have hrest := hu.spans (Text.Tail.spans_cons hc)
  have hsizes : u.offset + c.utf8Size ≤ byteCount text := hrest.offset_le
  have hpos := c.utf8Size_pos
  simp only [List.head?_cons]
  by_cases hcl : isClosing c
  · rw [if_pos hcl, if_pos hcl]
    exact hend
  rw [if_neg hcl, if_neg hcl]
  by_cases hdm : c = definitionMark
  · rw [if_pos (.inl hdm), if_pos hdm]
    refine (deepen_ends hsize hn₁ (by omega)).step fun es₂ hn₂ => ?_
    refine (definition_ends ?_ (by omega) (by omega) (by omega)).fault
    rw [hu.charAt?_eq, hc, hdm]
    rfl
  rw [if_neg hdm]
  rcases hb : Bracket.ofOpening? c with _ | b
  · have hcond : ¬ (c = definitionMark ∨ (none : Option Bracket).isSome = true) := by simp [hdm]
    rw [if_neg hcond]
    by_cases hw : isWordChar c
    · have hv := hu.skip isWordChar
      have hlt : u.offset < (u.skip isWordChar).offset :=
        (Text.Tail.spans_skip isWordChar u).lt (by simp [Tail.run, hc, hw])
      have hshort : (u.skip isWordChar).length < t.length := by
        rw [← hut] at hc ⊢
        exact length_lt_of_word hc hw
      simp only [hw, if_true]
      rw [map_cons]
      refine (word_ends hsize (by omega) hn₁ hu hc hw).step fun es₂ hn₂ => ?_
      refine (note_ends (e := .passed t.offset _) (Nat.lt_of_le_of_lt hskip hlt) hn₂).step
        fun es₃ hn₃ => ?_
      exact components_ends start _ _ (by omega) hv hn₃ hlimit (by omega) (by omega)
    · simp only [hw]
      exact .throw _
  · obtain rfl := Bracket.eq_opening_of_ofOpening? hb
    rw [if_pos (.inr rfl), map_bind]
    have hshort : (⟨u.offset + 1, cs⟩ : Tail).length < t.length := by
      rw [← hut] at hc ⊢
      exact length_lt_of_opening hc
    have ht' : (⟨u.offset, b.opening :: cs⟩ : Tail).Of text := by
      rw [← hc]
      exact hu
    have hrest : cs.length < clock := by
      change cs.length < t.length at hshort
      omega
    refine nested_ends (f := fun d => components limit text n start (clock + 1) (read ++ [d])) hsize
      (fun v es hlen hv hn hlimit hdepth => ?_) hrest ht' hn₁ hlimit (by omega) hskip
      fun q es₂ hq hn₂ hr hlt => ?_
    · have hshorter : v.length < t.length := Nat.lt_of_le_of_lt hlen hshort
      simpa using components_ends v.offset [] v (by omega) hv hn hlimit hdepth le_rfl
    · have hshorter : q.2.length < t.length := Nat.lt_trans (length_groupAt_lt hq) hshort
      rw [map_cons]
      exact components_ends start _ _ (by omega) hr hn₂ hlimit (by omega) (by omega)
termination_by t.length

theorem read_ends {clock : Nat} (hclock : 2 * text.length < clock) :
    Ends limit text 0 (read limit text clock) [] (Description.read limit text) := by
  have ht := (Text.Tail.of_ofChars text).skip isSpace
  have hshrink : ((Tail.ofChars text).skip isSpace).length ≤ text.length :=
    Tail.length_skip_le isSpace _
  have hnil : level [] = 0 := rfl
  have hlength : text.length < clock := by omega
  obtain ⟨clock, rfl⟩ : ∃ k, clock = k + 1 := ⟨clock - 1, by omega⟩
  rw [read, read_eq rfl]
  refine (scan_ends hsize hlength hnil (Text.Tail.of_ofChars text)).step fun es₁ hn₁ => ?_
  generalize (Tail.ofChars text).skip isSpace = t at ht hshrink ⊢
  rw [ht.charAt?_eq]
  rcases hc : t.chars with _ | ⟨c, cs⟩
  · exact .throw _
  simp only [List.head?_cons]
  by_cases hround : c = Bracket.round.opening
  · subst hround
    have ht' : (⟨t.offset, Bracket.round.opening :: cs⟩ : Tail).Of text := by
      rw [← hc]
      exact ht
    have hrest : cs.length + 1 ≤ text.length := by
      rwa [Tail.length_of_chars hc] at hshrink
    rw [if_pos rfl, if_pos rfl]
    refine (group_ends hsize (fun v es hlen hv hn hlimit hdepth => ?_) (by omega) ht' (by omega)
      (by omega) (by omega)).bind fun q es₂ hq hn₂ => ?_
    · simpa using components_ends hsize v.offset [] v (by omega) hv hn hlimit hdepth le_rfl
    · have hshorter : q.2.length < cs.length := length_groupAt_lt hq
      obtain ⟨hr, hlt⟩ := of_groupAt ht' hq
      have hend := (hr.skip isSpace).byteCount_eq
      refine (move_to_ends hsize hn₂ hr hlt.le).step fun es₃ hn₃ => ?_
      refine (scan_ends hsize (by omega) hn₃ hr).step fun es₄ hn₄ => ?_
      rw [endAt]
      rcases hchars : (q.2.skip isSpace).chars with _ | ⟨c, cs⟩ <;> rw [hchars] at hend
      · rw [if_neg (by simp [hend, byteCount])]
        exact .pure _ (hn₄.trans hn₁)
      · have hpos := Text.byteCount_pos (List.cons_ne_nil c cs)
        rw [if_pos (by omega)]
        exact .throw _
  · rw [if_neg hround, if_neg hround]
    exact .throw _

theorem Entry.Sound.fits {e : Entry} (h : e.Sound limit text) : e.Fits := by
  cases e <;> simp only [Entry.Sound, Entry.Fits] at h ⊢
  all_goals omega

end Words

/-! ## A longer clock changes nothing -/

/-- What the steps `m` come to, the steps `m'` come to as well. -/
def Approximates (m m' : Steps α) : Prop := ∀ es r, m.run.run es = some r → m'.run.run es = some r

namespace Approximates

theorem refl (m : Steps α) : Approximates m m := fun _ _ => id

theorem timeUp (m : Steps α) : Approximates timeUp m := nofun

theorem bind {m m' : Steps α} {f f' : α → Steps β} (hm : Approximates m m')
    (hf : ∀ a, Approximates (f a) (f' a)) : Approximates (m >>= f) (m' >>= f') := by
  intro es r h
  simp only [ExceptT.run_bind, StateT.run_bind] at h ⊢
  rcases hrun : m.run.run es with _ | ⟨x, es'⟩
  · rw [hrun] at h
    cases h
  · rw [hrun] at h
    rw [hm es _ hrun]
    rcases x with e | a
    · exact h
    · exact hf a es' r h

end Approximates

theorem scan_approximates {p : Char → Bool} : ∀ {clock clock' : Nat}, clock ≤ clock' → ∀ pos,
    Approximates (scan p text clock pos) (scan p text clock' pos)
  | 0, _, _, _ => .timeUp _
  | clock + 1, clock' + 1, h, pos => by
    simp only [scan]
    rcases charAt? text pos with _ | c
    · exact .refl _
    · by_cases hc : p c = true
      · simp only [hc, if_true]
        exact .bind (.refl _) fun _ => scan_approximates (Nat.le_of_succ_le_succ h) _
      · simp only [hc]
        exact .refl _

variable {clock clock' : Nat}

theorem head_approximates (h : clock ≤ clock') (b : Bracket) (pos : Nat) :
    Approximates (head text b clock pos) (head text b clock' pos) := by
  cases b with
  | round => exact .refl _
  | square => exact .refl _
  | angle => exact .bind (.bind (scan_approximates h pos) fun _ => .refl _) fun _ => .refl _

mutual

theorem group_approximates : ∀ {clock clock' : Nat}, clock ≤ clock' → ∀ start depth,
    Approximates (group limit text clock start depth) (group limit text clock' start depth)
  | 0, _, _, _, _ => .timeUp _
  | clock + 1, clock' + 1, h, start, depth => by
    have h := Nat.le_of_succ_le_succ h
    simp only [group]
    refine .bind (.refl _) fun _ => ?_
    rcases charAt? text start with _ | c
    · exact .refl _
    simp only []
    split_ifs
    · exact .refl _
    · exact .refl _
    refine .bind (.refl _) fun pos => ?_
    rcases Bracket.ofOpening? c with _ | b
    · exact .refl _
    exact .bind (head_approximates h b pos) fun _ =>
      .bind (components_approximates h _ _ _ _) fun _ => .refl _

theorem components_approximates : ∀ {clock clock' : Nat}, clock ≤ clock' →
    ∀ depth start read pos, Approximates (components limit text depth start clock read pos)
      (components limit text depth start clock' read pos)
  | 0, _, _, _, _, _, _ => .timeUp _
  | clock + 1, clock' + 1, h, depth, start, read, pos => by
    have h := Nat.le_of_succ_le_succ h
    simp only [components]
    refine .bind (scan_approximates h pos) fun next => ?_
    rcases charAt? text next with _ | c
    · exact .refl _
    simp only []
    split_ifs
    · exact .refl _
    · exact .bind (.refl _) fun _ => .bind (group_approximates h _ _) fun _ =>
        .bind (.refl _) fun _ => .bind (.refl _) fun _ => components_approximates h _ _ _ _
    · exact .bind (.bind (scan_approximates h _) fun _ => .refl _) fun _ => .bind (.refl _) fun _ =>
        components_approximates h _ _ _ _
    · exact .refl _

end

theorem read_approximates (h : clock ≤ clock') :
    Approximates (read limit text clock) (read limit text clock') := by
  refine .bind (scan_approximates h 0) fun start => ?_
  rcases charAt? text start with _ | c
  · exact .refl _
  simp only []
  split_ifs
  · exact .bind (group_approximates h _ _) fun _ => .bind (.refl _) fun _ =>
      .bind (scan_approximates h _) fun _ => .refl _
  · exact .refl _

/-- Reading a text ends and gives what `read` says, in machine words too, however long the clock is once
it is longer than twice the text. On the way every position is a boundary of the text, no sum of
positions or of depths is too large for a word, and no difference goes below zero; no more than
`limit + 1` groups are ever being read, and no more than there are bytes; every pass of the loop over
components that goes on gets further; what is taken out of the text is a part of it that is not empty;
and no group is read where no bracket opens. -/
theorem read_accounted (limit : Nat) (text : List Char) (hsize : byteCount text < wordSize / 2) :
    ∃ account, (∀ clock, 2 * text.length < clock →
        (read limit text clock).run.run [] = some (Description.read limit text, account)) ∧
      ∀ e ∈ account, e.Sound limit text ∧ e.Fits := by
  have hends : Ends limit text 0 (read limit text (2 * text.length + 1)) [] _ :=
    read_ends hsize (Nat.lt_succ_self _)
  obtain ⟨account, hrun, hsound, -⟩ := hends
  refine ⟨account, fun clock hclock => read_approximates hclock _ _ hrun, fun e he => ?_⟩
  rcases hsound e he with hnil | hsound
  · exact absurd hnil List.not_mem_nil
  · exact ⟨hsound, hsound.fits hsize⟩

/-- A spell around a rune and a target, which is as deep as the limit allows, with a blank after it. -/
theorem read_accounted_nested :
    byteCount ['(', 'a', '/', '<', 'T', ':', 'b', '>', ')', '\n'] < wordSize / 2 ∧
      ∃ account, (∀ clock, 20 < clock →
          (read 2 ['(', 'a', '/', '<', 'T', ':', 'b', '>', ')', '\n'] clock).run.run [] =
            some (.ok (.pair .spell (.rune "a") (.solo (.triangle .target) (.rune "b"))), account)) ∧
        ∀ e ∈ account, e.Sound 2 ['(', 'a', '/', '<', 'T', ':', 'b', '>', ')', '\n'] ∧ e.Fits := by
  have hsize : byteCount ['(', 'a', '/', '<', 'T', ':', 'b', '>', ')', '\n'] < wordSize / 2 := by
    decide
  have hread : Description.read 2 ['(', 'a', '/', '<', 'T', ':', 'b', '>', ')', '\n'] =
      .ok (.pair .spell (.rune "a") (.solo (.triangle .target) (.rune "b"))) :=
    (read_eq_scanner_read ..).trans rfl
  have haccount := read_accounted 2 _ hsize
  rw [hread] at haccount
  exact ⟨hsize, haccount⟩

end MagicCircle.Description.Account
