import MagicCircle.Json.Legible
import MagicCircle.Json.Printer
import MagicCircle.Proofs.Decimal.Digits

/-!
# Values are read as they are written

The reader gives back every legible value from its text (`read?_print`). A text is read up to its end
whatever follows it, except that a number must not be followed by what could belong to it.
-/

namespace MagicCircle.Json

open Decimal (Numeral digitValue digits digits_lt ofDigits ofDigits_digits spanDigits)

/-! ## Numbers -/

theorem EndsNumber.nil : EndsNumber [] := nofun

theorem endsNumber_cons {c : Char} (rest : List Char)
    (h : c.isDigit = false ∧ c ≠ '.' ∧ c ≠ 'e' ∧ c ≠ 'E') : EndsNumber (c :: rest) := by
  rintro _ ⟨⟩
  exact h

theorem digitValue_digitChar {d : Nat} (h : d < 10) : digitValue (Nat.digitChar d) = d :=
  Nat.toNat_digitChar_sub_48_of_lt_ten h

theorem spanDigits_append {ds : List Nat} {rest : List Char} (hds : ∀ d ∈ ds, d < 10)
    (hrest : ∀ c ∈ rest.head?, c.isDigit = false) :
    spanDigits (Numeral.digitChars ds ++ rest) = (ds, rest) := by
  have hall : ∀ c ∈ Numeral.digitChars ds, c.isDigit = true := by
    intro c hc
    obtain ⟨d, hd, rfl⟩ := List.mem_map.1 hc
    rw [Nat.isDigit_digitChar]
    exact decide_eq_true (hds d hd)
  have hstop : rest.takeWhile Char.isDigit = [] ∧ rest.dropWhile Char.isDigit = rest := by
    rcases rest with _ | ⟨c, cs⟩
    · exact ⟨rfl, rfl⟩
    · have hc := hrest c rfl
      rw [List.takeWhile_cons, List.dropWhile_cons, hc]
      exact ⟨rfl, rfl⟩
  have hvalues : (Numeral.digitChars ds).map digitValue = ds := by
    unfold Numeral.digitChars
    rw [List.map_map]
    exact (List.map_congr_left fun d hd => digitValue_digitChar (hds d hd)).trans (List.map_id ds)
  unfold spanDigits
  rw [List.takeWhile_append_of_pos hall, List.dropWhile_append_of_pos hall, hstop.1, hstop.2,
    List.append_nil, hvalues]

theorem fraction?_append {ds : List Nat} {rest : List Char} (hds : ∀ d ∈ ds, d < 10)
    (hrest : ∀ c ∈ rest.head?, c.isDigit = false ∧ c ≠ '.') :
    fraction? (Numeral.fractionChars ds ++ rest) = some (ds, rest) := by
  unfold Numeral.fractionChars
  split_ifs with hnil
  · rw [hnil, List.nil_append]
    rcases rest with _ | ⟨c, cs⟩
    · rfl
    · obtain ⟨-, hc⟩ := hrest c rfl
      rw [fraction?]
      rintro _ ⟨⟩
      exact hc rfl
  · rw [List.cons_append, fraction?, spanDigits_append hds fun c hc => (hrest c hc).1]
    dsimp only
    rw [if_neg hnil]

theorem exponent?_signed {ds : List Nat} {cs rest : List Char} (hds : ds ≠ [])
    (hspan : spanDigits cs = (ds, rest)) :
    exponent? ('e' :: '-' :: cs) = some (some (-(ofDigits ds : Int)), rest) ∧
      exponent? ('e' :: '+' :: cs) = some (some (ofDigits ds : Int), rest) := by
  simp [exponent?, hspan, hds]

theorem exponent?_append (e : Option Int) {rest : List Char} (hrest : EndsNumber rest) :
    exponent? (Numeral.exponentChars e ++ rest) = some (e, rest) := by
  rcases e with _ | e
  · rw [Numeral.exponentChars, List.nil_append]
    rcases rest with _ | ⟨c, cs⟩
    · rfl
    · obtain ⟨-, -, he, he'⟩ := hrest c rfl
      unfold exponent?
      dsimp only
      rw [if_neg (not_or.2 ⟨he, he'⟩)]
  · have hne : digits e.natAbs ≠ [] := fun h => Nat.toDigits_ne_nil (List.map_eq_nil_iff.1 h)
    have hspan := spanDigits_append (fun d (hd : d ∈ digits e.natAbs) => digits_lt hd)
      fun c hc => (hrest c hc).1
    obtain ⟨hminus, hplus⟩ := exponent?_signed hne hspan
    rw [ofDigits_digits] at hminus hplus
    rw [Numeral.exponentChars, List.cons_append, List.cons_append]
    split_ifs with hneg
    · rw [hminus]
      exact congrArg (fun e => some (some e, rest)) (by omega)
    · rw [hplus]
      exact congrArg (fun e => some (some e, rest)) (by omega)

/-- What a character of what follows must be is asked of the first of two texts, or of the second. -/
theorem head?_append {cs rest : List Char} {P : Char → Prop} (hcs : ∀ c ∈ cs.head?, P c)
    (hrest : ∀ c ∈ rest.head?, P c) : ∀ c ∈ (cs ++ rest).head?, P c := by
  rcases cs with _ | ⟨c, cs⟩
  · exact hrest
  · exact hcs

/-- The parts of a number are read one after the other. -/
theorem number?_of {negative : Bool} {whole fraction : List Nat} {exponent : Option Int}
    {cs r r' rest : List Char} (hminus : cs.head? ≠ some '-') (hspan : spanDigits cs = (whole, r))
    (hstart : ¬ (whole = [] ∨ whole.head? = some 0 ∧ whole ≠ [0]))
    (hfraction : fraction? r = some (fraction, r')) (hexponent : exponent? r' = some (exponent, rest)) :
    number? ((if negative then ['-'] else []) ++ cs) =
      some (⟨negative, whole, fraction, exponent⟩, rest) := by
  rcases negative with _ | _
  · rw [if_neg Bool.false_ne_true, List.nil_append, number?, hspan]
    · dsimp only
      rw [if_neg hstart, hfraction]
      dsimp only [Option.bind_eq_bind, Option.bind_some]
      rw [hexponent]
      rfl
    · rintro r rfl
      exact hminus rfl
  · rw [if_pos rfl, List.singleton_append, number?, hspan]
    dsimp only
    rw [if_neg hstart, hfraction]
    dsimp only [Option.bind_eq_bind, Option.bind_some]
    rw [hexponent]
    rfl

/-- A numeral is read up to its end. -/
theorem number?_append {n : Numeral} (h : n.Legible) {rest : List Char} (hrest : EndsNumber rest) :
    number? (n.chars ++ rest) = some (n, rest) := by
  have hstart : ¬ (n.whole = [] ∨ n.whole.head? = some 0 ∧ n.whole ≠ [0]) :=
    not_or.2 ⟨h.nonempty, fun h' => h'.2 (h.no_leading_zero h'.1)⟩
  have hexponent := exponent?_append n.exponent hrest
  have hends : ∀ c ∈ (Numeral.exponentChars n.exponent ++ rest).head?,
      c.isDigit = false ∧ c ≠ '.' := by
    refine head?_append ?_ fun c hc => ⟨(hrest c hc).1, (hrest c hc).2.1⟩
    rcases n.exponent with _ | e
    · exact nofun
    · rintro _ ⟨⟩
      decide
  have hfraction := fraction?_append h.fraction hends
  have hends' : ∀ c ∈ (Numeral.fractionChars n.fraction ++
      (Numeral.exponentChars n.exponent ++ rest)).head?, c.isDigit = false := by
    refine head?_append ?_ fun c hc => (hends c hc).1
    unfold Numeral.fractionChars
    split_ifs
    · exact nofun
    · rintro _ ⟨⟩
      rfl
  have hspan := spanDigits_append h.whole hends'
  have hminus (cs : List Char) : (Numeral.digitChars n.whole ++ cs).head? ≠ some '-' := by
    obtain ⟨d, ds, hwhole⟩ := List.exists_cons_of_ne_nil h.nonempty
    rw [hwhole]
    exact fun h => Nat.digitChar_ne '-' (by decide) (Option.some.inj h)
  rw [Numeral.chars_eq, List.append_assoc, List.append_assoc, List.append_assoc]
  exact number?_of (hminus _) hspan hstart hfraction hexponent

/-! ## Strings -/

variable {cs rest : List Char} {c : Char}

/-- A character that stands for itself. -/
theorem reads_plain {text : List Char} (hquote : c ≠ '"') (hslash : c ≠ '\\') (hspace : ¬ c < ' ')
    (h : Reads (stringRest cs) (some text) rest) :
    Reads (stringRest (c :: cs)) (some (c :: text)) rest := by
  obtain ⟨hrest, hread⟩ := h
  rw [stringRest]
  · rw [if_neg (not_or.2 ⟨hslash, hspace⟩), hread]
    exact ⟨_, rfl⟩
  · exact hquote
  · exact fun _ _ _ _ _ h => absurd h hslash
  · exact fun _ _ h => absurd h hslash

/-- A character after a backslash. -/
theorem reads_simpleEscape {text : List Char} {ch : Char} (hescape : simpleEscape? c = some ch)
    (h : Reads (stringRest cs) (some text) rest) :
    Reads (stringRest ('\\' :: c :: cs)) (some (ch :: text)) rest := by
  obtain ⟨hrest, hread⟩ := h
  rw [stringRest]
  · rw [hescape]
    dsimp only
    rw [hread]
    exact ⟨_, rfl⟩
  · rintro _ _ _ _ _ rfl
    cases hescape

theorem hexValue?_digitChar : ∀ d : Fin 16, hexValue? (Nat.digitChar d) = some d.val := by decide

theorem hexNumber?_control {n : Nat} (hn : n < 32) :
    hexNumber? '0' '0' (Nat.digitChar (n / 16)) (Nat.digitChar (n % 16)) = some n := by
  have hhigh := hexValue?_digitChar ⟨n / 16, by omega⟩
  have hlow := hexValue?_digitChar ⟨n % 16, by omega⟩
  have hzero : hexValue? '0' = some 0 := rfl
  dsimp only at hhigh hlow
  unfold hexNumber?
  rw [hzero, hhigh, hlow]
  exact congrArg some (by omega)

/-- A control character is written by its number. -/
theorem reads_controlEscape {text : List Char} (hspace : c < ' ')
    (h : Reads (stringRest cs) (some text) rest) :
    Reads (stringRest (controlEscape c ++ cs)) (some (c :: text)) rest := by
  obtain ⟨hrest, hread⟩ := h
  have hlt : c.toNat < 32 := hspace
  have hhigh : isHighHalf c.toNat = false := by
    unfold isHighHalf
    simp only [Bool.and_eq_false_iff, decide_eq_false_iff_not]
    omega
  have hlow : isLowHalf c.toNat = false := by
    unfold isLowHalf
    simp only [Bool.and_eq_false_iff, decide_eq_false_iff_not]
    omega
  unfold controlEscape
  rw [List.cons_append, List.cons_append, List.cons_append, List.cons_append, List.cons_append,
    List.cons_append, List.nil_append, stringRest, hexNumber?_control hlt]
  dsimp only
  rw [if_neg (by rw [hhigh]; decide), hread]
  refine ⟨by simp only [List.length_cons] at *; omega, ?_⟩
  dsimp only
  rw [if_neg (by rw [hlow]; decide), Char.ofNat_toNat]
  rfl

/-- A character is written with a backslash before a character for it, by its number, or as it is. -/
theorem escape_cases (c : Char) :
    (∃ e, escape c = ['\\', e] ∧ simpleEscape? e = some c) ∨
      escape c = controlEscape c ∧ c < ' ' ∨
      escape c = [c] ∧ c ≠ '"' ∧ c ≠ '\\' ∧ ¬ c < ' ' := by
  unfold escape
  split_ifs with hquote hslash hnewline hreturn htab hspace
  · exact .inl ⟨'"', rfl, by rw [hquote]; rfl⟩
  · exact .inl ⟨'\\', rfl, by rw [hslash]; rfl⟩
  · exact .inl ⟨'n', rfl, by rw [hnewline]; rfl⟩
  · exact .inl ⟨'r', rfl, by rw [hreturn]; rfl⟩
  · exact .inl ⟨'t', rfl, by rw [htab]; rfl⟩
  · exact .inr (.inl ⟨rfl, hspace⟩)
  · exact .inr (.inr ⟨rfl, hquote, hslash, hspace⟩)

theorem reads_escape {text : List Char} (h : Reads (stringRest cs) (some text) rest) :
    Reads (stringRest (escape c ++ cs)) (some (c :: text)) rest := by
  obtain ⟨e, he, hescape⟩ | ⟨he, hspace⟩ | ⟨he, hquote, hslash, hspace⟩ := escape_cases c <;> rw [he]
  · exact reads_simpleEscape hescape h
  · exact reads_controlEscape hspace h
  · exact reads_plain hquote hslash hspace h

/-- A string is read up to its closing quote. -/
theorem reads_string (text rest : List Char) :
    Reads (stringRest (text.flatMap escape ++ '"' :: rest)) (some text) rest := by
  induction text with
  | nil => exact ⟨_, stringRest.eq_2 rest⟩
  | cons c text ih =>
    rw [List.flatMap_cons, List.append_assoc]
    exact reads_escape ih

/-! ## Values -/

theorem skipBlank_cons (h : isBlank c = false) : skipBlank (c :: cs) = c :: cs := by
  rw [skipBlank, List.dropWhile_cons, h]
  rfl

theorem reads_progress {β : Type} {b : β} (h : rest.length < cs.length) :
    Reads (progress? cs (some (b, rest))) b rest := by
  rw [progress?, dif_pos h]
  exact ⟨h, rfl⟩

/-- A value that is neither an array nor an object. -/
theorem reads_scalar {v : Value} (hblank : isBlank c = false) (harray : c ≠ '[')
    (hobject : c ≠ '\x7b') (h : Reads (scalar? (c :: cs)) v rest) :
    Reads (value (c :: cs)) v rest := by
  have hskip := @skipBlank_cons cs c hblank
  obtain ⟨hlt, hread⟩ : Reads (scalar? (skipBlank (c :: cs))) v rest := by rwa [hskip]
  rw [value]
  split
  case h_1 heq =>
    rw [hskip] at heq
    exact absurd (List.cons.inj heq).1 harray
  case h_2 heq =>
    rw [hskip] at heq
    exact absurd (List.cons.inj heq).1 hobject
  case h_3 =>
    dsimp only
    rw [hread]
    exact ⟨_, rfl⟩

theorem reads_array {vs : List Value}
    (h : cs = ']' :: rest ∧ vs = [] ∨ (∀ r, skipBlank cs ≠ ']' :: r) ∧ Reads (items cs) vs rest) :
    Reads (value ('[' :: cs)) (.array vs) rest := by
  rw [value]
  split
  case h_2 heq => cases heq
  case h_3 harray _ => exact (harray _ rfl).elim
  case h_1 heq =>
  cases heq
  obtain ⟨rfl, rfl⟩ | ⟨hclose, hlt, hread⟩ := h
  · split
    case h_1 heq =>
      cases heq
      exact ⟨_, rfl⟩
    case h_2 hclose => exact (hclose _ rfl).elim
  · split
    case h_1 heq => exact absurd heq (hclose _)
    case h_2 =>
      rw [hread]
      exact ⟨_, rfl⟩

theorem reads_object {ms : List (Option String × Value)}
    (h : cs = '\x7d' :: rest ∧ ms = [] ∨
      (∀ r, skipBlank cs ≠ '\x7d' :: r) ∧ Reads (members cs) ms rest) :
    Reads (value ('\x7b' :: cs)) (.object ms) rest := by
  rw [value]
  split
  case h_1 heq => cases heq
  case h_3 hobject => exact (hobject _ rfl).elim
  case h_2 heq =>
  cases heq
  obtain ⟨rfl, rfl⟩ | ⟨hclose, hlt, hread⟩ := h
  · split
    case h_1 heq =>
      cases heq
      exact ⟨_, rfl⟩
    case h_2 hclose => exact (hclose _ rfl).elim
  · split
    case h_1 heq => exact absurd heq (hclose _)
    case h_2 =>
      rw [hread]
      exact ⟨_, rfl⟩

/-! ## Items and members -/

variable {r more : List Char} {v : Value} {vs : List Value} {ms : List (Option String × Value)}

/-- After an item stands the end of the array or, after a comma, the other items. -/
theorem reads_items (h : Reads (value cs) v r)
    (hrest : r = ']' :: rest ∧ vs = [] ∨ ∃ more, r = ',' :: more ∧ Reads (items more) vs rest) :
    Reads (items cs) (v :: vs) rest := by
  obtain ⟨hlt, hread⟩ := h
  rw [items, hread]
  dsimp only
  obtain ⟨rfl, rfl⟩ | ⟨more, rfl, hlt', hread'⟩ := hrest
  · split
    case h_1 heq =>
      cases heq
      exact ⟨_, rfl⟩
    case h_2 heq => cases heq
    case h_3 hclose _ => exact (hclose _ rfl).elim
  · split
    case h_1 heq => cases heq
    case h_2 heq =>
      cases heq
      rw [hread']
      exact ⟨_, rfl⟩
    case h_3 hcomma => exact (hcomma _ rfl).elim

theorem reads_members {key afterKey : List Char}
    (hkey : Reads (stringRest cs) (some key) (':' :: afterKey)) (h : Reads (value afterKey) v r)
    (hrest : r = '\x7d' :: rest ∧ ms = [] ∨ ∃ more, r = ',' :: more ∧ Reads (members more) ms rest) :
    Reads (members ('"' :: cs)) ((some (String.ofList key), v) :: ms) rest := by
  obtain ⟨hlt, hread⟩ := hkey
  obtain ⟨hlt', hread'⟩ := h
  rw [members]
  split
  case h_2 hquote => exact (hquote _ rfl).elim
  case h_1 heq =>
  cases heq
  rw [hread]
  dsimp only
  split
  case h_2 hcolon => exact (hcolon _ rfl).elim
  case h_1 heq =>
  cases heq
  rw [hread']
  dsimp only
  obtain ⟨rfl, rfl⟩ | ⟨more, rfl, hlt'', hread''⟩ := hrest
  · split
    case h_1 heq =>
      cases heq
      exact ⟨_, rfl⟩
    case h_2 heq => cases heq
    case h_3 hclose _ => exact (hclose _ rfl).elim
  · split
    case h_1 heq => cases heq
    case h_2 heq =>
      cases heq
      rw [hread'']
      exact ⟨_, rfl⟩
    case h_3 hcomma => exact (hcomma _ rfl).elim

/-! ## Whole values -/

/-- A number starts with its sign or with a digit. -/
theorem chars_eq_cons {n : Numeral} (h : n.Legible) :
    ∃ c cs, n.chars = c :: cs ∧ (c = '-' ∨ c.isDigit = true) := by
  rw [Numeral.chars_eq]
  rcases n.negative with _ | _
  · obtain ⟨d, ds, hwhole⟩ := List.exists_cons_of_ne_nil h.nonempty
    have hd : d < 10 := h.whole d (by rw [hwhole]; exact .head _)
    rw [hwhole]
    exact ⟨Nat.digitChar d, _, rfl, .inr (by rw [Nat.isDigit_digitChar, decide_eq_true hd])⟩
  · exact ⟨'-', _, rfl, .inl rfl⟩

theorem ne_of_starts_number {c d : Char} (hc : c = '-' ∨ c.isDigit = true)
    (hd : d ≠ '-' ∧ d.isDigit = false) : c ≠ d := by
  rintro rfl
  obtain rfl | hdigit := hc
  · exact hd.1 rfl
  · rw [hd.2] at hdigit
    cases hdigit

theorem isBlank_of_starts_number {c : Char} (hc : c = '-' ∨ c.isDigit = true) :
    isBlank c = false := by
  have hspace := ne_of_starts_number (d := ' ') hc (by decide)
  have htab := ne_of_starts_number (d := '\t') hc (by decide)
  have hnewline := ne_of_starts_number (d := '\n') hc (by decide)
  have hreturn := ne_of_starts_number (d := '\x0d') hc (by decide)
  simp [isBlank, hspace, htab, hnewline, hreturn]

theorem reads_number {n : Numeral} (h : n.Legible) (hrest : EndsNumber rest) :
    Reads (value (n.chars ++ rest)) (.number n) rest := by
  obtain ⟨c, cs, hcs, hc⟩ := chars_eq_cons h
  have hread := number?_append h hrest
  have hne {d : Char} (hd : d ≠ '-' ∧ d.isDigit = false) (r) (heq : c :: (cs ++ rest) = d :: r) :=
    ne_of_starts_number hc hd (List.cons.inj heq).1
  rw [hcs, List.cons_append] at hread ⊢
  refine reads_scalar (isBlank_of_starts_number hc) (ne_of_starts_number hc (by decide))
    (ne_of_starts_number hc (by decide)) ?_
  rw [scalar?, hread]
  · refine reads_progress ?_
    dsimp only
    rw [List.length_cons, List.length_append]
    omega
  all_goals exact hne (by decide)

/-- No value starts like the end of an array. -/
theorem print_eq_cons {v : Value} (h : v.Legible) :
    ∃ c cs, print v = c :: cs ∧ isBlank c = false ∧ c ≠ ']' := by
  rcases v with _ | _ | n | _ | vs | ms
  case number =>
    obtain ⟨c, cs, hcs, hc⟩ := chars_eq_cons h
    exact ⟨c, cs, by rw [print, hcs], isBlank_of_starts_number hc,
      ne_of_starts_number hc (by decide)⟩
  case bool b => rcases b with _ | _ <;> exact ⟨_, _, rfl, by decide, by decide⟩
  case string s => rcases s with _ | s <;> exact ⟨_, _, rfl, by decide, by decide⟩
  all_goals exact ⟨_, _, rfl, by decide, by decide⟩

/-- The items of an array do not start like its end. -/
theorem printItems_open {vs : List Value} (h : ItemsLegible vs) (hvs : vs ≠ []) (r : List Char) :
    skipBlank (printItems vs ++ cs) ≠ ']' :: r := by
  obtain ⟨v, vs, rfl⟩ := List.exists_cons_of_ne_nil hvs
  obtain ⟨c, ds, hv, hblank, hclose⟩ := print_eq_cons h.1
  rcases vs with _ | ⟨w, vs⟩
  · rw [printItems, hv, List.cons_append, skipBlank_cons hblank]
    exact fun heq => hclose (List.cons.inj heq).1
  · rw [printItems, hv, List.cons_append, List.cons_append, skipBlank_cons hblank]
    · exact fun heq => hclose (List.cons.inj heq).1
    · exact List.cons_ne_nil _ _

/-- The members of an object start with a quote. -/
theorem printMembers_open {ms : List (Option String × Value)} (hms : ms ≠ []) (r : List Char) :
    skipBlank (printMembers ms ++ cs) ≠ '\x7d' :: r := by
  obtain ⟨⟨key, v⟩, ms, rfl⟩ := List.exists_cons_of_ne_nil hms
  rcases ms with _ | ⟨m, ms⟩
  · rw [printMembers, quote, List.cons_append, List.cons_append, skipBlank_cons (by decide)]
    exact fun heq => absurd (List.cons.inj heq).1 (by decide)
  · rw [printMembers, quote, List.cons_append, List.cons_append, List.cons_append,
      skipBlank_cons (by decide)]
    · exact fun heq => absurd (List.cons.inj heq).1 (by decide)
    · exact List.cons_ne_nil _ _

theorem reads_quote (s : String) (rest : List Char) :
    Reads (value (quote s ++ rest)) (.string (some s)) rest := by
  obtain ⟨hlt, hread⟩ := reads_string s.toList rest
  rw [quote, List.cons_append, List.append_assoc, List.singleton_append]
  refine reads_scalar (by decide) (by decide) (by decide) ?_
  rw [scalar?, hread]
  refine ⟨by rw [List.length_cons]; omega, ?_⟩
  dsimp only
  rw [Option.map_some, String.ofList_toList]

mutual

/-- A legible value is read up to its end. -/
theorem reads_print : ∀ (v : Value), v.Legible → ∀ {rest : List Char}, EndsNumber rest →
    Reads (value (print v ++ rest)) v rest
  | .null, _, rest, _ => by
    refine reads_scalar (c := 'n') rfl (by decide) (by decide) (reads_progress ?_)
    exact Nat.lt_add_of_pos_right (k := 4) (by decide)
  | .bool true, _, rest, _ => by
    refine reads_scalar (c := 't') rfl (by decide) (by decide) (reads_progress ?_)
    exact Nat.lt_add_of_pos_right (k := 4) (by decide)
  | .bool false, _, rest, _ => by
    refine reads_scalar (c := 'f') rfl (by decide) (by decide) (reads_progress ?_)
    exact Nat.lt_add_of_pos_right (k := 5) (by decide)
  | .number n, h, rest, hrest => by
    rw [print]
    exact reads_number h hrest
  | .string none, h, _, _ => by cases h
  | .string (some s), _, rest, _ => by
    rw [print]
    exact reads_quote s rest
  | .array vs, h, rest, _ => by
    rw [print, List.cons_append, List.append_assoc]
    rcases eq_or_ne vs [] with rfl | hvs
    · exact reads_array (.inl ⟨rfl, rfl⟩)
    · exact reads_array (.inr ⟨printItems_open h hvs, reads_printItems vs h hvs rest⟩)
  | .object ms, h, rest, _ => by
    rw [print, List.cons_append, List.append_assoc]
    rcases eq_or_ne ms [] with rfl | hms
    · exact reads_object (.inl ⟨rfl, rfl⟩)
    · exact reads_object (.inr ⟨printMembers_open hms, reads_printMembers ms h hms rest⟩)

theorem reads_printItems : ∀ vs : List Value, ItemsLegible vs → vs ≠ [] → ∀ rest : List Char,
    Reads (items (printItems vs ++ ']' :: rest)) vs rest
  | [], _, hvs, _ => absurd rfl hvs
  | [v], h, _, rest => by
    rw [printItems]
    exact reads_items (reads_print v h.1 (endsNumber_cons rest (by decide))) (.inl ⟨rfl, rfl⟩)
  | v :: w :: vs, h, _, rest => by
    rw [printItems, List.append_assoc, List.cons_append]
    · exact reads_items (reads_print v h.1 (endsNumber_cons _ (by decide)))
        (.inr ⟨_, rfl, reads_printItems (w :: vs) h.2 (List.cons_ne_nil _ _) rest⟩)
    · exact List.cons_ne_nil _ _

theorem reads_printMembers : ∀ ms : List (Option String × Value), MembersLegible ms → ms ≠ [] →
    ∀ rest : List Char, Reads (members (printMembers ms ++ '\x7d' :: rest)) ms rest
  | [], _, hms, _ => absurd rfl hms
  | [(some key, v)], h, _, rest => by
    have htext : printMembers [(some key, v)] ++ '\x7d' :: rest =
        '"' :: (key.toList.flatMap escape ++ '"' :: ':' :: (print v ++ '\x7d' :: rest)) := by
      simp [printMembers, quote]
    have hread := reads_members (reads_string key.toList _)
      (reads_print v h.2.1 (endsNumber_cons rest (by decide))) (.inl ⟨rfl, rfl⟩)
    rw [String.ofList_toList] at hread
    rwa [htext]
  | (some key, v) :: m :: ms, h, _, rest => by
    have htext : printMembers ((some key, v) :: m :: ms) ++ '\x7d' :: rest =
        '"' :: (key.toList.flatMap escape ++
          '"' :: ':' :: (print v ++ ',' :: (printMembers (m :: ms) ++ '\x7d' :: rest))) := by
      simp [printMembers, quote]
    have hread := reads_members (reads_string key.toList _)
      (reads_print v h.2.1 (endsNumber_cons _ (by decide)))
      (.inr ⟨_, rfl, reads_printMembers (m :: ms) h.2.2 (List.cons_ne_nil _ _) rest⟩)
    rw [String.ofList_toList] at hread
    rwa [htext]

end

/-- A legible value is read from its text. -/
theorem read?_print {v : Value} (h : v.Legible) : read? (print v) = some v := by
  have hreads := reads_print v h EndsNumber.nil
  rw [List.append_nil] at hreads
  obtain ⟨hlt, hread⟩ := hreads
  rw [read?, hread]
  rfl

end MagicCircle.Json
