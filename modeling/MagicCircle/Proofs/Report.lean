import MagicCircle.Glyph.Folder
import MagicCircle.Glyph.Slots
import MagicCircle.Glyph.Wording
import MagicCircle.Proofs.Description.Diagnosis
import MagicCircle.Proofs.Description.Words
import MagicCircle.Proofs.Drawing.Arises
import MagicCircle.Proofs.Drawing.Leaves
import MagicCircle.Proofs.Json.Printer
import MagicCircle.Settings

/-!
# Reports of one line

What a report repeats of what it was given decides whether it is one line. Of a text it repeats only
characters that stop the scanner or that are in words (`oneLine_of_read_error`), and of a diagram only
the names of runes. A setting it repeats in full, line feeds and all.
-/

namespace MagicCircle

open Files (Entry FileFault)
open Text (OneLine)

/-- A report is one line exactly if its code and its message are. -/
theorem oneLine_report_iff {ε : Type} [Reportable ε] {e : ε} (hcode : OneLine (Reportable.code e)) :
    OneLine (report e) ↔ OneLine (Reportable.message e) := by
  have hopen : OneLine "error [" := by decide
  have hclose : OneLine "]" := by decide
  have hmark : OneLine (if Reportable.retryable e then " (retryable)" else "") := by
    split <;> decide
  have hcolon : OneLine ": " := by decide
  simp [report, hopen, hcode, hclose, hmark, hcolon]

/-! ## Texts -/

theorem Shape.oneLine_name (shape : Shape) : OneLine shape.name := by
  rcases shape with _ | _ | _ | _ | _ <;> decide

theorem oneLine_structureError (e : StructureError) : OneLine (Reportable.message e) := by
  rcases e with shape | ⟨shape, count⟩
  · have hrest : OneLine " needs at least one component" := by decide
    simp [Reportable.message, shape.oneLine_name, hrest]
  · have hrest : OneLine " supports only up to 2 components, got " := by decide
    simp [Reportable.message, shape.oneLine_name, hrest]

namespace Description

variable {limit : Nat} {text : List Char}

theorem Shows.newline_not_mem_quotes {f : Fault} (h : Shows limit text f) : '\n' ∉ f.quotes := by
  cases h with
  | malformed _ hc | unexpectedChar _ hc =>
    intro hmem
    cases List.mem_singleton.1 hmem
    cases hc
  | @mismatchedClose _ _ c b _ _ _ hc =>
    intro hmem
    simp only [Fault.quotes, List.mem_cons, List.not_mem_nil, or_false] at hmem
    rcases hmem with rfl | hb
    · cases hc
    · cases b <;> cases hb
  | @unterminated _ _ b =>
    intro hmem
    cases b <;> cases List.mem_singleton.1 hmem
  | unknownMark _ hword =>
    rw [Fault.quotes, String.toList_ofList]
    intro hmem
    cases hword _ hmem
  | _ => exact List.not_mem_nil

theorem shows_of_read {f : Fault} (h : read limit text = .error (.fault f)) :
    Shows limit text f := by
  obtain h | ⟨s, hs, hfinish⟩ := Scanner.read_eq_error h
  · obtain ⟨u, c, v, s, rfl, hs, hrefuses, -⟩ := Scanner.after_eq_error h
    exact hrefuses.shows hs
  · exact Scanner.shows_of_finish hs hfinish

theorem oneLine_report_readError (e : ReadError) :
    OneLine (report e) ↔ OneLine (Reportable.message e) := by
  refine oneLine_report_iff ?_
  rcases e with (_ | _ | _ | _ | _ | _ | _ | _ | _ | _) | (_ | _) <;>
    simp [Reportable.code, OneLine]

theorem oneLine_of_read_error {e : ReadError} (h : read limit text = .error e) :
    OneLine (report e) := by
  rw [oneLine_report_readError]
  rcases e with f | e
  · have hstart : OneLine "syntax error: " := by decide
    have hfault := f.oneLine_message_iff.2 (shows_of_read h).newline_not_mem_quotes
    exact Text.oneLine_append.2 ⟨hstart, hfault⟩
  · have hstart : OneLine "structure error: " := by decide
    exact Text.oneLine_append.2 ⟨hstart, oneLine_structureError e⟩

theorem oneLine_of_mem_leaves {d : Diagram} (h : read limit text = .ok d) {name : String}
    (hname : name ∈ d.leaves) : OneLine name := by
  intro hmem
  cases (wordOf_of_read h name hname).isWordChar_of_mem _ hmem

end Description

/-! ## Settings -/

namespace Settings

theorem oneLine_report_settingsError {e : SettingsError} {key value : String}
    (he : e = .unreadable key value ∨ e = .notPositive key value) (hkey : OneLine key) :
    OneLine (report e) ↔ OneLine value := by
  have hcode : OneLine (Reportable.code e) := by
    rcases e with _ | _ <;> simp [Reportable.code, OneLine]
  rw [oneLine_report_iff hcode]
  obtain rfl | rfl := he
  · have hstart : OneLine "config parse failed: " := by decide
    have hequals : OneLine "=" := by decide
    simp [Reportable.message, hstart, hkey, hequals]
  · have hrest : OneLine " must be a positive finite number, got " := by decide
    simp [Reportable.message, hrest, hkey]

theorem readSide_eq_error {given : Option String} {e : SettingsError}
    (h : readSide given = .error e) : ∃ value, given = some value ∧
      (e = .unreadable sideVariable value ∨ e = .notPositive sideVariable value) := by
  unfold readSide at h
  rcases given with _ | value
  · cases h
  · refine ⟨value, rfl, ?_⟩
    dsimp only at h
    split at h
    · exact .inl (Except.error.inj h).symm
    · split_ifs at h
      exact .inr (Except.error.inj h).symm

theorem readLimit_eq_error {given : Option String} {e : SettingsError}
    (h : readLimit given = .error e) : ∃ value, given = some value ∧
      (e = .unreadable limitVariable value ∨ e = .notPositive limitVariable value) := by
  unfold readLimit at h
  rcases given with _ | value
  · cases h
  · refine ⟨value, rfl, ?_⟩
    dsimp only at h
    split at h
    · exact .inl (Except.error.inj h).symm
    · exact .inr (Except.error.inj h).symm
    · cases h

/-- Settings fail on the value of one of two variables, and the report repeats it in full. -/
theorem oneLine_of_ofVariables_error {valueOf? : String → Option String} {e : SettingsError}
    (h : ofVariables valueOf? = .error e) : ∃ key ∈ [sideVariable, limitVariable], ∃ value,
      valueOf? key = some value ∧ (OneLine (report e) ↔ OneLine value) := by
  unfold ofVariables at h
  rcases hside : readSide (valueOf? sideVariable) with e' | side
  · rw [hside] at h
    cases h
    obtain ⟨value, hvalue, he⟩ := readSide_eq_error hside
    exact ⟨_, .head _, value, hvalue, oneLine_report_settingsError he (by decide)⟩
  · rw [hside] at h
    rcases hlimit : readLimit (valueOf? limitVariable) with e' | limit
    · rw [hlimit] at h
      cases h
      obtain ⟨value, hvalue, he⟩ := readLimit_eq_error hlimit
      exact ⟨_, .tail _ (.head _), value, hvalue, oneLine_report_settingsError he (by decide)⟩
    · rw [hlimit] at h
      cases h

end Settings

/-! ## Glyphs -/

theorem oneLine_report_glyphError (e : GlyphError) :
    OneLine (report e) ↔ OneLine (Reportable.message e) := by
  refine oneLine_report_iff ?_
  rcases e with _ | _ | _ <;> simp [Reportable.code, OneLine]

section Glyphs

variable {name : String} (hname : OneLine name)
include hname

theorem oneLine_notFound : OneLine (Reportable.message (GlyphError.notFound name)) := by
  have hstart : OneLine "glyph not found: " := by decide
  exact Text.oneLine_append.2 ⟨hstart, hname⟩

theorem oneLine_malformed {flaw : Flaw} (hflaw : OneLine flaw.text) :
    OneLine (Reportable.message (GlyphError.malformed name flaw)) := by
  have hstart : OneLine "glyph '" := by decide
  have hmiddle : OneLine "' is malformed: " := by decide
  simp [Reportable.message, hstart, hname, hmiddle, hflaw]

theorem oneLine_unreadable {cause : FileFault} (hcause : OneLine cause.text) :
    OneLine (Reportable.message (GlyphError.unreadable name cause)) := by
  have hstart : OneLine "glyph '" := by decide
  have hmiddle : OneLine "' could not be read: " := by decide
  simp [Reportable.message, hstart, hname, hmiddle, hcause]

end Glyphs

theorem Glyph.strokeFlaw?_eq_some {stroke : List (Point Float)} {flaw : Flaw}
    (h : strokeFlaw? stroke = some flaw) : flaw = .emptyStroke ∨ flaw = .outsideUnitSquare := by
  unfold strokeFlaw? at h
  split_ifs at h <;> simp_all

theorem Glyph.oneLine_of_flaw? {g : Glyph} {flaw : Flaw} (h : g.flaw? = some flaw) :
    OneLine flaw.text := by
  unfold flaw? at h
  split_ifs at h
  · cases h
    decide
  · obtain ⟨stroke, -, hstroke⟩ := List.exists_of_findSome?_eq_some h
    obtain rfl | rfl := strokeFlaw?_eq_some hstroke <;> decide

theorem Glyph.oneLine_of_decodeWith_error {decoder : Decoder} {name text : String} {e : GlyphError}
    (hname : OneLine name) (hreason : ∀ reason, decoder text = .error reason → OneLine reason)
    (h : decodeWith decoder name text = .error e) : OneLine (Reportable.message e) := by
  unfold decodeWith at h
  split at h
  · rename_i reason hdecoder
    cases h
    exact oneLine_malformed hname (hreason reason hdecoder)
  · unfold validate at h
    split at h
    · rename_i hflaw
      cases h
      exact oneLine_malformed hname (oneLine_of_flaw? hflaw)
    · cases h

/-! ## Sources -/

theorem Files.Entry.oneLine_of_walk_error {root : Entry} {here path : List String} {e : FileFault}
    (h : root.walk here path = .error e) : OneLine e.text := by
  fun_induction walk root here path with
  | case1 => cases h
  | case2 | case3 | case4 | case7 | case8 =>
    cases h
    decide
  | case5 _ _ _ _ ih | case6 _ _ _ _ _ ih | case9 _ _ _ _ _ _ _ _ _ _ ih => exact ih h

theorem Files.Entry.oneLine_of_read_error {root : Entry} {here : List String} {path : String}
    {e : FileFault} (h : root.read here path = .error e) : OneLine e.text := by
  unfold read at h
  split_ifs at h
  any_goals
    cases h
    decide
  all_goals
    split at h
    · rename_i hwalk
      cases h
      exact oneLine_of_walk_error hwalk
    · cases h
      decide
    · cases h

namespace Source

variable {σ : Type} {source : Source σ}

theorem table_eq (name : String) (t : Table) :
    (table name t).1 = (t.get? name).elim (.error (.notFound name)) .ok := by
  change ((table name).run t).1 = _
  rcases hg : t.get? name <;> simp [table, hg] <;> rfl

theorem tidy_table : table.Tidy := by
  intro name t e hname h
  rw [table_eq] at h
  rcases hg : t.get? name with _ | g <;> rw [hg] at h <;> cases h
  exact oneLine_notFound hname

theorem tidy_folder {decoder : Glyph.Decoder} (hdecoder : decoder.Tidy) (here : List String)
    (folder : String) : (Folder.sourceWith decoder here folder).Tidy := by
  intro name tree e hname h
  unfold Folder.sourceWith Folder.answer Folder.glyph at h
  dsimp only at h
  split at h
  · cases h
    exact oneLine_notFound hname
  · rename_i htext
    cases h
    obtain hread | rfl := Files.asText_eq_error htext
    · exact oneLine_unreadable hname (Files.Entry.oneLine_of_read_error hread)
    · exact oneLine_unreadable hname (by decide)
  · exact Glyph.oneLine_of_decodeWith_error hname (hdecoder _) h

theorem Tidy.cached (h : source.Tidy) : source.cached.Tidy := by
  intro name s e hname he
  unfold Source.cached at he
  split at he
  · cases he
  · rcases hs : source name s.2 with ⟨e' | g, t⟩ <;> rw [hs] at he <;> cases he
    exact h name s.2 e hname (by rw [hs])

theorem Tidy.slotted (h : source.Tidy) : source.slotted.Tidy := by
  intro name s e hname he
  unfold Source.slotted at he
  dsimp only at he
  split at he
  · cases he
  · rcases hs : source name s.2 with ⟨e' | g, t⟩ <;> rw [hs] at he <;> cases he
    exact h name s.2 e hname (by rw [hs])

end Source

/-! ## Drawings -/

theorem Decimal.oneLine_messageText (x : Float) : OneLine (messageText x) := by
  unfold messageText
  split
  · decide
  · split <;> decide
  · exact Text.oneLine_ofList.2 (Json.newline_not_mem_numeral _)

theorem oneLine_ofStroke (number : Nat) : OneLine (Rejection.ofStroke number).message := by
  have hstart : OneLine "surface error: " := by decide
  have hstroke : OneLine "stroke " := by decide
  have hrejected : OneLine " rejected" := by decide
  simp [Rejection.message, Rejection.ofStroke, hstart, hstroke, hrejected]

theorem DrawError.oneLine_of_arises {σ : Type} {source : Source σ} {names : List String}
    {e : DrawError Float} (h : e.Arises source names) (hsource : source.Tidy)
    (hnames : ∀ name ∈ names, OneLine name) : OneLine (report e) := by
  have hcode : OneLine (Reportable.code e) := by
    rcases e with _ | _ | _ | _ <;> simp [Reportable.code, OneLine]
  rw [oneLine_report_iff hcode]
  cases h with
  | @leaf name s cause hname h =>
    have hstart : OneLine "cannot draw rune '" := by decide
    have hmiddle : OneLine "': " := by decide
    have hcause := hsource name s cause (hnames name hname) h
    change OneLine ("cannot draw rune '" ++ name ++ "': " ++ Reportable.message cause)
    simp [hstart, hmiddle, hcause, hnames name hname]
  | @glyph name number hname =>
    have hstart : OneLine "cannot draw glyph for rune '" := by decide
    have hmiddle : OneLine "': " := by decide
    simp [Reportable.message, hstart, hmiddle, hnames name hname, oneLine_ofStroke]
  | surface number => exact oneLine_ofStroke number
  | invalidSide side =>
    have hstart : OneLine "side must be a positive finite number, got " := by decide
    exact Text.oneLine_append.2 ⟨hstart, Decimal.oneLine_messageText side⟩

/-- Reports of texts are one line. So are those of glyphs under names that are, if the decoder's words
are, and those of drawings of what was read from a text, if the source is tidy; all sources here are.
Settings are refused by the value of a variable, and the report of that is one line exactly if the
value is. -/
theorem report_is_one_line {σ : Type} {source : Source σ} (hsource : source.Tidy) :
    (∀ limit text e, Description.read limit text = .error e → OneLine (report e)) ∧
    (∀ valueOf? e, Settings.ofVariables valueOf? = .error e →
      ∃ key ∈ [Settings.sideVariable, Settings.limitVariable], ∃ value,
        valueOf? key = some value ∧ (OneLine (report e) ↔ OneLine value)) ∧
    (∀ (decoder : Glyph.Decoder) name text e, OneLine name →
      (∀ reason, decoder text = .error reason → OneLine reason) →
      Glyph.decodeWith decoder name text = .error e → OneLine (report e)) ∧
    (∀ limit text d, Description.read limit text = .ok d →
      ∀ (side : Float) c s e, (d.renderOn source side c s).1 = .error e → OneLine (report e)) ∧
    source.cached.Tidy ∧ source.slotted.Tidy ∧ Source.table.Tidy ∧
      ∀ decoder : Glyph.Decoder, decoder.Tidy →
        ∀ here folder, (Folder.sourceWith decoder here folder).Tidy := by
  refine ⟨fun _ _ _ h => Description.oneLine_of_read_error h,
    fun _ _ h => Settings.oneLine_of_ofVariables_error h, ?_, ?_, hsource.cached, hsource.slotted,
    Source.tidy_table, fun _ h here folder => Source.tidy_folder h here folder⟩
  · intro decoder name text e hname hreason h
    exact (oneLine_report_glyphError e).2 (Glyph.oneLine_of_decodeWith_error hname hreason h)
  · intro limit text d hd side c s e h
    exact DrawError.oneLine_of_arises (Diagram.arises_of_renderOn h) hsource
      fun name hname => Description.oneLine_of_mem_leaves hd hname

/-- Where no name has a glyph, the report of a drawing of `(moon)` is one line. -/
theorem report_is_one_line_missing :
    let source : Source Unit := .ofFunction fun name => .error (.notFound name)
    let drawn := (Diagram.solo .spell (.rune "moon")).renderOn source (1 : Float) (.blank none) ()
    source.Tidy ∧ Description.read 1 "(moon)".toList = .ok (.solo .spell (.rune "moon")) ∧
      drawn.1 = .error (.leaf "moon" (.notFound "moon")) ∧
      OneLine (report (DrawError.leaf "moon" (.notFound "moon") : DrawError Float)) := by
  intro source drawn
  have htidy : source.Tidy := by
    intro name s e hname he
    cases he
    exact oneLine_notFound hname
  have hread : Description.read 1 "(moon)".toList = .ok (.solo .spell (.rune "moon")) :=
    (Description.read_eq_scanner_read ..).trans rfl
  have hdrawn : drawn.1 = .error (.leaf "moon" (.notFound "moon")) := by
    have hs := Source.answers_ofFunction (σ := Unit) fun name => .error (.notFound name)
    exact Diagram.renderOn_unlimited hs _ (by decide) rfl ()
  exact ⟨htidy, hread, hdrawn, (report_is_one_line htidy).2.2.2.1 _ _ _ hread _ _ _ _ hdrawn⟩

/-- The report of a side that ends in a line feed does not stay on its line. -/
theorem report_of_side_breaks :
    let e : SettingsError := .unreadable "SIGIL_SIDE" "wide\n"
    Settings.ofVariables (fun key => if key = "SIGIL_SIDE" then some "wide\n" else none) = .error e ∧
      report e = "error [E_CONFIG_PARSE]: config parse failed: SIGIL_SIDE=wide\n" ∧
      ¬ OneLine (report e) := by
  refine ⟨?_, ?_, ?_⟩
  · rfl
  · decide
  · decide

end MagicCircle
