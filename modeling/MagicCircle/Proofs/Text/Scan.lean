import MagicCircle.Proofs.Text.Tail
import MagicCircle.Text.Scan

/-!
# Scanning ends at one place only

From a boundary a scan ends at the one place that `ScanEnd` allows (`ScanEnd.unique`), which is where
`skipWhile` stands (`scanEnd_skipWhile`). From anywhere else it does not move.
-/

namespace MagicCircle.Text

variable {p : Char → Bool} {text u v w : List Char} {c : Char} {pos q q' : Nat}

theorem charAt?_append (u v : List Char) : charAt? (u ++ v) (byteCount u) = v.head? := by
  rw [charAt?, suffixAt?_append]
  rfl

theorem isBoundary_append (u v : List Char) : IsBoundary (u ++ v) (byteCount u) := ⟨u, v, rfl, rfl⟩

theorem IsBoundary.le (h : IsBoundary text pos) : pos ≤ byteCount text := by
  obtain ⟨u, v, rfl, rfl⟩ := h
  rw [byteCount_append]
  omega

theorem suffixAt?_of_not_isBoundary (h : ¬ IsBoundary text pos) : suffixAt? text pos = none := by
  rcases hs : suffixAt? text pos with _ | v
  · rfl
  · obtain ⟨u, huv⟩ := exists_of_suffixAt? hs
    exact absurd ⟨u, v, huv⟩ h

theorem skipWhile_of_not_isBoundary (h : ¬ IsBoundary text pos) : skipWhile p text pos = pos := by
  rw [skipWhile, suffixAt?_of_not_isBoundary h]

theorem exists_of_charAt? (h : charAt? text pos = some c) :
    ∃ u v, text = u ++ c :: v ∧ byteCount u = pos := by
  rw [charAt?, Option.bind_eq_some_iff] at h
  obtain ⟨v, hv, hc⟩ := h
  obtain ⟨u, rfl, hu⟩ := exists_of_suffixAt? hv
  obtain ⟨v, rfl⟩ := List.head?_eq_some_iff.1 hc
  exact ⟨u, v, rfl, hu⟩

/-- A character that starts in a part of a text is one of the part. -/
theorem mem_of_charAt? (h : charAt? (u ++ (w ++ v)) pos = some c) (hle : byteCount u ≤ pos)
    (hlt : pos < byteCount u + byteCount w) : c ∈ w := by
  obtain ⟨x, y, hxy, rfl⟩ := exists_of_charAt? h
  rw [← List.append_assoc] at hxy
  obtain ⟨z, hz⟩ := exists_of_byteCount_lt hxy (by rwa [byteCount_append])
  obtain ⟨s, rfl, hs⟩ | ⟨s, rfl, hs⟩ := List.append_eq_append_iff.1 hz
  · simp [hs]
  · rcases s with _ | ⟨a, s⟩
    · simp only [List.nil_append] at hs
      simp [← hs]
    · have hpos := a.utf8Size_pos
      rw [byteCount_append, byteCount_cons] at hle
      omega

namespace Tail

variable {t r : Tail}

/-- The tail is one of the text: it stands where its offset says. -/
def Of (t : Tail) (text : List Char) : Prop := ∃ u, (ofChars text).Spans u t

theorem of_ofChars (text : List Char) : (ofChars text).Of text := ⟨[], Spans.refl _⟩

namespace Of

theorem spans (h : t.Of text) (hr : t.Spans w r) : r.Of text :=
  h.imp' (· ++ w) fun _ hu => hu.trans hr

theorem skip (h : t.Of text) (p : Char → Bool) : (t.skip p).Of text := h.spans (spans_skip p t)

theorem exists_eq (h : t.Of text) : ∃ u, text = u ++ t.chars ∧ byteCount u = t.offset := by
  obtain ⟨u, hchars, hoffset⟩ := h
  exact ⟨u, hchars, by rw [hoffset, ofChars, Nat.zero_add]⟩

theorem charAt?_eq (h : t.Of text) : charAt? text t.offset = t.chars.head? := by
  obtain ⟨u, hu, ho⟩ := h.exists_eq
  rw [hu, ← ho, charAt?_append]

theorem isBoundary (h : t.Of text) : IsBoundary text t.offset := by
  obtain ⟨u, hu, ho⟩ := h.exists_eq
  exact ⟨u, t.chars, hu, ho⟩

theorem byteCount_eq (h : t.Of text) : byteCount text = t.offset + byteCount t.chars := by
  obtain ⟨u, hu, ho⟩ := h.exists_eq
  rw [hu, ← ho, byteCount_append]

theorem offset_le (h : t.Of text) : t.offset ≤ byteCount text := h.isBoundary.le

theorem slice_eq (h : t.Of text) (hr : t.Spans w r) : slice text t.offset r.offset = w := by
  obtain ⟨u, hu, ho⟩ := h.exists_eq
  rw [hu, hr.1, hr.2, ← ho, slice_append]

end Of

end Tail

/-! ## The one place where a scan ends -/

theorem scanEnd_append (p : Char → Bool) (u v : List Char) :
    ScanEnd p (u ++ v) (byteCount u) (skipWhile p (u ++ v) (byteCount u)) := by
  have hv : v = v.takeWhile p ++ v.dropWhile p := List.takeWhile_append_dropWhile.symm
  have hend : byteCount u + byteCount (v.takeWhile p) = byteCount (u ++ v.takeWhile p) :=
    (byteCount_append u _).symm
  have huv : u ++ v = (u ++ v.takeWhile p) ++ v.dropWhile p := by rw [List.append_assoc, ← hv]
  rw [skipWhile_append]
  refine ⟨by omega, ?_, fun o c hle hlt hc => ?_, ?_⟩
  · rw [hend, huv]
    exact isBoundary_append _ _
  · rw [hv] at hc
    exact List.all_eq_true.1 List.all_takeWhile c (mem_of_charAt? hc hle hlt)
  · have hnot := List.head?_dropWhile_not p v
    rcases hd : v.dropWhile p with _ | ⟨c, cs⟩
    · left
      rw [hend, huv, hd, List.append_nil]
    · right
      rw [hd] at hnot
      refine ⟨c, ?_, hnot⟩
      rw [hend, huv, hd, charAt?_append]
      rfl

theorem scanEnd_skipWhile (h : IsBoundary text pos) :
    ScanEnd p text pos (skipWhile p text pos) := by
  obtain ⟨u, v, rfl, rfl⟩ := h
  exact scanEnd_append p u v

namespace ScanEnd

/-- No place where a scan may end comes after another one: the character there would fail. -/
theorem le_of (h : ScanEnd p text pos q) (h' : ScanEnd p text pos q') : q ≤ q' := by
  by_contra hlt
  rcases h'.stops with hend | ⟨c, hc, hfail⟩
  · have := h.isBoundary.le
    omega
  · rw [h.holds q' c h'.le (by omega) hc] at hfail
    cases hfail

theorem unique (h : ScanEnd p text pos q) (h' : ScanEnd p text pos q') : q = q' :=
  Nat.le_antisymm (h.le_of h') (h'.le_of h)

/-- A scan that starts later ends at the same place. -/
theorem later {o : Nat} (h : ScanEnd p text pos q) (hle : pos ≤ o) (hq : o ≤ q) :
    ScanEnd p text o q :=
  ⟨hq, h.isBoundary, fun x c hx => h.holds x c (hle.trans hx), h.stops⟩

end ScanEnd

theorem skipWhile_of_between {o : Nat} (ho : IsBoundary text o) (hle : pos ≤ o)
    (hq : o ≤ skipWhile p text pos) : skipWhile p text o = skipWhile p text pos := by
  by_cases hpos : IsBoundary text pos
  · exact (scanEnd_skipWhile ho).unique ((scanEnd_skipWhile hpos).later hle hq)
  · rw [skipWhile_of_not_isBoundary hpos] at hq
    rw [Nat.le_antisymm hq hle]

theorem scan_append (p : Char → Bool) : ∀ {clock : Nat} (u v : List Char), v.length < clock →
    scan p (u ++ v) clock (byteCount u) = some (skipWhile p (u ++ v) (byteCount u))
  | 0, _, v, h => absurd h (Nat.not_lt_zero v.length)
  | clock + 1, u, [], _ => by
    rw [scan, charAt?_append, skipWhile_append]
    simp [byteCount]
  | clock + 1, u, c :: v, h => by
    have ih := scan_append p (u ++ [c]) v (Nat.lt_of_succ_lt_succ h)
    have hu : byteCount (u ++ [c]) = byteCount u + c.utf8Size := by simp [byteCount_append, byteCount]
    rw [List.append_assoc, List.singleton_append, hu] at ih
    rw [scan, charAt?_append, skipWhile_append]
    by_cases hc : p c = true
    · have hsize : byteCount u + c.utf8Size + byteCount (v.takeWhile p) =
          byteCount u + byteCount ((c :: v).takeWhile p) := by
        rw [List.takeWhile_cons_of_pos hc, byteCount_cons]
        omega
      have hskip := skipWhile_append p (u ++ [c]) v
      rw [List.append_assoc, List.singleton_append, hu, hsize] at hskip
      simp only [List.head?_cons, hc, if_true]
      rw [ih, hskip]
    · simp [hc, byteCount]

/-- A scan looks at each character of the text once at most. -/
theorem scan_eq {clock : Nat} (h : text.length < clock) :
    scan p text clock pos = some (skipWhile p text pos) := by
  by_cases hpos : IsBoundary text pos
  · obtain ⟨u, v, rfl, rfl⟩ := hpos
    rw [List.length_append] at h
    exact scan_append p u v (by omega)
  · rcases clock with _ | clock
    · cases h
    · rw [scan, skipWhile_of_not_isBoundary hpos, charAt?, suffixAt?_of_not_isBoundary hpos]
      rfl

/-! ## What is scanned -/

theorem slice_skipWhile (p : Char → Bool) (u v : List Char) :
    slice (u ++ v) (byteCount u) (skipWhile p (u ++ v) (byteCount u)) = v.takeWhile p := by
  have h := slice_append u (v.takeWhile p) (v.dropWhile p)
  rwa [List.takeWhile_append_dropWhile, ← skipWhile_append] at h

theorem Tail.Of.offset_skip {t : Tail} (h : t.Of text) (p : Char → Bool) :
    (t.skip p).offset = skipWhile p text t.offset := by
  obtain ⟨u, hu, ho⟩ := h.exists_eq
  rw [hu, ← ho, skipWhile_append, ho]
  rfl

theorem Tail.Of.run_eq {t : Tail} (h : t.Of text) (p : Char → Bool) :
    t.run p = slice text t.offset (skipWhile p text t.offset) := by
  rw [← h.offset_skip, h.slice_eq (Tail.spans_skip p t)]

/-- A text has only one part from its start on that takes up a given number of bytes. -/
theorem eq_of_byteCount_eq {x y : List Char} (h : u ++ v = x ++ y)
    (hsize : byteCount u = byteCount x) : u = x := by
  obtain ⟨z, rfl, -⟩ | ⟨z, rfl, -⟩ := List.append_eq_append_iff.1 h
  all_goals
    rcases z with _ | ⟨c, z⟩
    · simp
    · have hpos := c.utf8Size_pos
      rw [byteCount_append, byteCount_cons] at hsize
      omega

theorem isRun_takeWhile (p : Char → Bool) (u v : List Char) :
    IsRun p (u ++ v) (byteCount u) (v.takeWhile p) := by
  refine ⟨⟨u, v.dropWhile p, ?_, rfl⟩, fun c hc => ?_⟩
  · rw [List.takeWhile_append_dropWhile]
  · exact List.all_eq_true.1 List.all_takeWhile c hc

theorem IsRun.prefix_takeWhile (h : IsRun p (u ++ v) (byteCount u) w) : w <+: v.takeWhile p := by
  obtain ⟨x, y, hxy, hx⟩ := h.stands
  obtain rfl := eq_of_byteCount_eq hxy hx.symm
  rw [List.append_cancel_left hxy, List.takeWhile_append_of_pos h.holds]
  exact List.prefix_append _ _

/-- From any position whatever a scan ends, at `skipWhile` and no earlier than it began, before it
has looked at more characters than the text has. Where no character starts and the text does not
end, it does not move. Otherwise it ends at the only boundary that has nothing but characters that
satisfy `p` before it and none at it, and a second scan from there or from any boundary in between
ends at the same place. What lies in between is the longest run of such characters. What a reader
skips of a tail of the text is scanned so. -/
theorem scan_maximal (p : Char → Bool) (text : List Char) (pos : Nat) :
    (∀ clock, text.length < clock → scan p text clock pos = some (skipWhile p text pos)) ∧
    pos ≤ skipWhile p text pos ∧
    (¬ IsBoundary text pos → skipWhile p text pos = pos ∧
      slice text pos (skipWhile p text pos) = []) ∧
    (IsBoundary text pos → (∀ q, ScanEnd p text pos q ↔ q = skipWhile p text pos) ∧
      IsRun p text pos (slice text pos (skipWhile p text pos)) ∧
      ∀ w, IsRun p text pos w → w <+: slice text pos (skipWhile p text pos)) ∧
    skipWhile p text (skipWhile p text pos) = skipWhile p text pos ∧
    (∀ o, IsBoundary text o → pos ≤ o → o ≤ skipWhile p text pos →
      skipWhile p text o = skipWhile p text pos) ∧
    ∀ t : Tail, t.Of text → t.offset = pos →
      (t.skip p).offset = skipWhile p text pos ∧ t.run p = slice text pos (skipWhile p text pos) := by
  have hend : IsBoundary text pos → ScanEnd p text pos (skipWhile p text pos) := scanEnd_skipWhile
  refine ⟨fun _ => scan_eq, ?_, fun h => ?_, fun h => ⟨fun q => ⟨fun hq => ?_, ?_⟩, ?_⟩, ?_,
    fun o ho hle hq => skipWhile_of_between ho hle hq, ?_⟩
  · by_cases h : IsBoundary text pos
    · exact (hend h).le
    · rw [skipWhile_of_not_isBoundary h]
  · rw [skipWhile_of_not_isBoundary h, slice, suffixAt?_of_not_isBoundary h]
    exact ⟨rfl, rfl⟩
  · exact hq.unique (hend h)
  · rintro rfl
    exact hend h
  · obtain ⟨u, v, rfl, rfl⟩ := h
    rw [slice_skipWhile]
    exact ⟨isRun_takeWhile p u v, fun w hw => hw.prefix_takeWhile⟩
  · by_cases h : IsBoundary text pos
    · exact skipWhile_of_between (hend h).isBoundary (hend h).le le_rfl
    · rw [skipWhile_of_not_isBoundary h, skipWhile_of_not_isBoundary h]
  · rintro t ht rfl
    exact ⟨ht.offset_skip p, ht.run_eq p⟩

/-- The position between the two bytes of the first character is left as it is. -/
example : skipWhile Char.isAlpha ['é', 'a', 'b'] 1 = 1 ∧
    skipWhile Char.isAlpha ['é', 'a', 'b'] 2 = 4 := by
  decide

end MagicCircle.Text
