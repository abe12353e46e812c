import MagicCircle.Description.Scanner
import MagicCircle.Proofs.Description.Machine

/-!
# The reader and the scanner

Where the stack machine takes a whole name or mark in one step, the scanner takes its characters one
by one (`readOn_skip`). Between components the two are in the same state, and from there they come
to the same (`readOn_body`). So the scanner reads every text as the reader does
(`read_eq_scanner_read`).
-/

namespace MagicCircle.Description.Scanner

open Text Text.Tail
open StackMachine (OpenGroup resume)

variable {limit o : Nat} {s s' : State} {u v cs : List Char} {c : Char} {e : ReadError}
  {t : Tail} {g : OpenGroup} {outer around : List OpenGroup} {d : Diagram} {p : Char → Bool}

theorem State.scan_append (limit : Nat) (v : List Char) : ∀ (u : List Char) (o : Nat) (s : State),
    s.scan limit o (u ++ v) = s.scan limit o u >>= scan limit (o + byteCount u) v
  | [], _, _ => rfl
  | c :: u, o, s => by
    rw [List.cons_append, scan, scan, bind_assoc, byteCount_cons, ← Nat.add_assoc]
    exact congrArg (s.step limit o c >>= ·) (funext fun s' => scan_append limit v u _ s')

theorem State.scan_singleton (s : State) : s.scan limit o [c] = s.step limit o c :=
  bind_pure (s.step limit o c)

/-- Characters that a state gathers one by one are gathered as a whole. -/
theorem State.scan_run {f : List Char → State}
    (hf : ∀ w c o, p c = true → (f w).step limit o c = .ok (f (w ++ [c]))) :
    ∀ (cs w : List Char) (o : Nat), (∀ c ∈ cs, p c = true) →
      (f w).scan limit o cs = .ok (f (w ++ cs))
  | [], w, _, _ => by rw [List.append_nil]; rfl
  | c :: cs, w, o, h => by
    have hc := hf w c o (h c List.mem_cons_self)
    have ih := scan_run hf cs (w ++ [c]) (o + c.utf8Size)
      fun a ha => h a (List.mem_cons_of_mem c ha)
    rw [List.append_assoc] at ih
    rw [scan, hc]
    exact ih

/-- The diagram that the scanner comes to in the rest of a text. -/
def readOn (limit : Nat) (s : State) (t : Tail) : Except ReadError Diagram :=
  s.scan limit t.offset t.chars >>= State.finish

theorem readOn_cons :
    readOn limit s ⟨o, c :: cs⟩ =
      s.step limit o c >>= fun s' => readOn limit s' ⟨o + c.utf8Size, cs⟩ :=
  bind_assoc ..

theorem readOn_skip {f : List Char → State}
    (hf : ∀ w c o, p c = true → (f w).step limit o c = .ok (f (w ++ [c]))) (w : List Char)
    (t : Tail) : readOn limit (f w) t = readOn limit (f (w ++ t.run p)) (t.skip p) := by
  obtain ⟨hchars, hoffset⟩ := spans_skip p t
  have hrun := State.scan_run hf (t.run p) w t.offset fun _ => forall_mem_run
  rw [readOn, hchars, State.scan_append, hrun, ← hoffset]
  rfl

theorem readOn_done (d : Diagram) (t : Tail) : readOn limit (.done d) t = endAt d t := by
  have hstay : ∀ (w : List Char) c o, isSpace c = true →
      (State.done d).step limit o c = .ok (.done d) := fun _ c o hc => if_pos hc
  rw [readOn_skip hstay [], endAt]
  generalize hu : t.skip isSpace = u
  rcases u with ⟨o, _ | ⟨c, cs⟩⟩
  · rfl
  · have hc : isSpace c = false := head_skip (p := isSpace) (t := t) (by rw [hu]; rfl)
    rw [readOn_cons, State.step, if_neg (by simp [hc])]
    rfl

theorem readOn_mark (around : List OpenGroup) (opened : Nat) (cs : List Char) :
    readOn limit (.mark around opened []) ⟨opened + 1, cs⟩ =
      headAt .angle ⟨opened + 1, cs⟩ >>= fun p =>
        readOn limit (.body ⟨p.1, .angle, opened, []⟩ around) p.2 := by
  have hgather : ∀ (w : List Char) c o, isWordChar c = true →
      (State.mark around opened w).step limit o c = .ok (.mark around opened (w ++ [c])) :=
    fun _ c o hc => if_pos hc
  rw [readOn_skip (f := .mark around opened) hgather [], List.nil_append]
  generalize hu : skip isWordChar ⟨opened + 1, cs⟩ = u
  rw [headAt_angle hu]
  generalize run isWordChar ⟨opened + 1, cs⟩ = w
  rcases u with ⟨o, _ | ⟨c, cs⟩⟩
  · rfl
  have hc : isWordChar c = false :=
    head_skip (p := isWordChar) (t := ⟨opened + 1, _⟩) (by rw [hu]; rfl)
  rw [readOn_cons, State.step, markStep, if_neg (by simp [hc])]
  by_cases hcolon : c = ':'
  · subst hcolon
    by_cases hw : w = []
    · simp only [hw, if_true, ne_eq, not_true_eq_false, and_false, if_false]
      rfl
    · simp only [hw, ne_eq, not_false_eq_true, and_self, if_true, if_false]
      rcases Triangle.ofMark? w <;> rfl
  · rw [if_neg fun h => hcolon h.1]
    split
    · rename_i hsplit
      exact absurd (List.cons.inj hsplit).1 hcolon
    · rfl

theorem readOn_word (hc : isWordChar c = true) :
    readOn limit (.word g outer [c]) ⟨o + c.utf8Size, cs⟩ =
      readOn limit (.body (g.push (.rune (String.ofList (run isWordChar ⟨o, c :: cs⟩)))) outer)
        (skip isWordChar ⟨o, c :: cs⟩) := by
  have hgather : ∀ (w : List Char) a o, isWordChar a = true →
      (State.word g outer w).step limit o a = .ok (.word g outer (w ++ [a])) :=
    fun _ a o ha => if_pos ha
  have hrun : run isWordChar ⟨o, c :: cs⟩ = [c] ++ run isWordChar ⟨o + c.utf8Size, cs⟩ := by
    simp [run, hc]
  have hskip : skip isWordChar ⟨o, c :: cs⟩ = skip isWordChar ⟨o + c.utf8Size, cs⟩ := by
    simp [skip, hc, byteCount_cons, Nat.add_assoc]
  rw [readOn_skip (f := .word g outer) hgather [c], ← hrun, ← hskip]
  generalize run isWordChar ⟨o, c :: cs⟩ = name
  generalize hv : skip isWordChar ⟨o, c :: cs⟩ = v
  rcases v with ⟨o', _ | ⟨a, cs'⟩⟩
  · rfl
  · have ha : isWordChar a = false :=
      head_skip (p := isWordChar) (t := ⟨o, c :: cs⟩) (by rw [hv]; rfl)
    simp only [readOn_cons, State.step, ha, Bool.false_eq_true, if_false]

theorem readOn_openGroup (limit : Nat) (around : List OpenGroup) (b : Bracket) (o : Nat)
    (cs : List Char) :
    (openGroup limit around b o >>= fun s => readOn limit s ⟨o + 1, cs⟩) =
      StackMachine.openGroup limit around b o ⟨o + 1, cs⟩ >>= fun s =>
        readOn limit (.body s.innermost s.outer) s.rest := by
  rw [StackMachine.openGroup_eq]
  unfold openGroup
  by_cases hl : limit ≤ around.length
  · rw [if_pos hl, if_pos (by omega)]
    rfl
  rw [if_neg hl, if_neg (by omega), bind_assoc]
  rcases b with _ | _ | _
  · rfl
  · rfl
  · exact readOn_mark around o cs

theorem readOn_body (limit : Nat) (g : OpenGroup) (outer : List OpenGroup) (t : Tail) :
    readOn limit (.body g outer) t =
      StackMachine.run limit ⟨g, outer, t⟩ >>= fun p => endAt p.1 p.2 := by
  have hstay : ∀ (w : List Char) c o, isSeparator c = true →
      (State.body g outer).step limit o c = .ok (.body g outer) := fun _ c o hc => if_pos hc
  rw [readOn_skip hstay []]
  generalize hu : t.skip isSeparator = u
  rw [StackMachine.run_eq hu]
  rcases u with ⟨o, _ | ⟨c, cs⟩⟩
  · rfl
  have hsep : isSeparator c = false := head_skip (p := isSeparator) (t := t) (by rw [hu]; rfl)
  have hcs : (t.skip isSeparator).chars = c :: cs := by rw [hu]
  have hlt : (⟨o + 1, cs⟩ : Tail).length < t.length := length_lt_of_opening hcs
  rw [readOn_cons, State.step, bodyStep, if_neg (by simp [hsep])]
  dsimp only
  by_cases hcl : isClosing c
  -- A closing bracket leads on in the group around, or to the end of the description.
  · simp only [if_pos hcl, closeAt]
    by_cases hc : c = g.bracket.closing
    · subst hc
      simp only [if_true, closeGroup, OpenGroup.close, Bracket.utf8Size_closing]
      rcases Diagram.group g.shape g.components with e | d
      · rfl
      · rcases outer with _ | ⟨g', outer⟩
        · exact readOn_done d _
        · exact readOn_body limit (g'.push d) outer _
    · simp only [if_neg hc]
      rfl
  simp only [if_neg hcl]
  by_cases hdm : c = definitionMark
  · simp only [if_pos hdm]
    rfl
  simp only [if_neg hdm]
  rcases hb : Bracket.ofOpening? c with _ | b
  · by_cases hw : isWordChar c
    · have hlt' : (skip isWordChar ⟨o, c :: cs⟩).length < t.length := by
        rw [← hu]
        exact length_lt_of_word hcs hw
      simp only [if_pos hw]
      exact (readOn_word hw).trans (readOn_body limit _ outer _)
    · simp only [if_neg hw]
      rfl
  · cases Bracket.eq_opening_of_ofOpening? hb
    simp only [Bracket.utf8Size_opening]
    rw [readOn_openGroup, bind_assoc]
    refine bind_congr_of_ok ?_
    rintro ⟨g', outer', r⟩ hr
    have hle := StackMachine.length_le_of_openGroup hr
    have hltr : r.length < t.length := Nat.lt_of_le_of_lt hle hlt
    exact readOn_body limit g' outer' r
termination_by t.length

end MagicCircle.Description.Scanner

namespace MagicCircle.Description

open Text Text.Tail

/-- The reader and the scanner come to the same on every text, faults included. -/
theorem read_eq_scanner_read (limit : Nat) (text : List Char) :
    read limit text = Scanner.read limit text := by
  have hstay : ∀ (w : List Char) c o, isSpace c = true →
      Scanner.State.start.step limit o c = .ok .start := fun _ c o hc => if_pos hc
  have hread : Scanner.read limit text = Scanner.readOn limit .start (ofChars text) := rfl
  rw [hread, Scanner.readOn_skip hstay []]
  generalize ht : (ofChars text).skip isSpace = t
  rw [read_eq ht]
  rcases t with ⟨o, _ | ⟨c, cs⟩⟩
  · rfl
  have hc : isSpace c = false :=
    head_skip (p := isSpace) (t := ofChars text) (by rw [ht]; rfl)
  rw [Scanner.readOn_cons, Scanner.State.step, if_neg (by simp [hc])]
  dsimp only
  by_cases hround : c = Bracket.round.opening
  · subst hround
    simp only [if_true, Bracket.utf8Size_opening]
    rw [Scanner.readOn_openGroup, ← StackMachine.openGroup_run_nil, bind_assoc]
    exact bind_congr_of_ok fun s _ => (Scanner.readOn_body limit _ _ _).symm
  · simp only [if_neg hround]
    rfl

end MagicCircle.Description
