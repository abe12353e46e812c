import MagicCircle.Command.Stage
import MagicCircle.Proofs.Drawing.Leaves
import MagicCircle.Proofs.Json.Printer

/-!
# A run is all or nothing

`Tools.run_stops_at_first_failing_stage`: a run prints the whole drawing if no stage fails. Otherwise
it prints nothing and reports the failure of the first stage that fails. This holds for any tools that
write an operation in one line, and so for the standard ones.

What each stage of a run comes to is shown by itself (`Request.settings_eq`,
`Request.description_cases`, `Request.job_lines`), and `Request.run_eq` puts the stages in a row. Of
all files a run only looks at those of the runes (`Tools.run_congr`), so that they can be read before
it starts.
-/

namespace MagicCircle

namespace Command

/-- The stages that a run passes through before it draws. -/
def preparation : List Stage := settingStages ++ [.input, .reading]

theorem stages_eq : stages = preparation ++ [.drawing] := rfl

theorem isSide_eq (side : Float) : isSide side = Scalar.usable side := rfl

theorem Job.lines_eq (job : Job) (tools : Tools)
    (files : String → Except Files.FileFault ByteArray) :
    let source : Source Unit :=
      Source.ofFunction (Folder.answer tools.decoder files job.settings.folder)
    let drawn := job.diagram.renderOn source.cached job.settings.side (Canvas.blank none) ({}, ())
    job.lines tools files =
      (drawn.1.map fun _ => drawn.2.1.ops.toList.map tools.line).mapError .drawing := by
  intro source drawn
  unfold lines
  dsimp only
  split
  · rename_i e t h
    have hdrawn : drawn = (.error e, t) := h
    rw [hdrawn]
    rfl
  · rename_i canvas t h
    have hdrawn : drawn = (.ok (), canvas, t) := h
    rw [hdrawn]
    rfl

namespace Request

variable (r : Request)

/-! ## Variables -/

section Variables

variable {r} {α : Type} {read : List Char → Option α} {good : α → Bool} {key : String}

theorem given?_of_pass (h : r.variableFailure? read good key = none) :
    (r.around.valueOf? key = none ∧ r.given? read key = none) ∨
      ∃ a, r.given? read key = some a ∧ good a = true := by
  unfold variableFailure? at h
  rcases hraw : r.around.valueOf? key with _ | raw
  · exact .inl ⟨rfl, by rw [given?, hraw]; rfl⟩
  · rw [hraw] at h
    dsimp only at h
    rcases hgiven : r.given? read key with _ | a <;> rw [hgiven] at h
    · cases h
    · right
      refine ⟨a, rfl, ?_⟩
      by_contra hgood
      simp [hgood] at h

end Variables

theorem readSide_eq : Settings.readSide (r.around.valueOf? Settings.sideVariable) =
    match r.variableFailure? Decimal.readFloat? isSide Settings.sideVariable with
    | some e => .error e
    | none => .ok ((r.given? Decimal.readFloat? Settings.sideVariable).getD
        Settings.standard.side) := by
  unfold Settings.readSide variableFailure? given?
  rcases r.around.valueOf? Settings.sideVariable with _ | raw
  · rfl
  simp only [Option.bind_some, isSide_eq]
  rcases Decimal.readFloat? (Text.trim raw.toList) with _ | side
  · rfl
  · by_cases hu : Scalar.usable side = true <;> simp [hu]

theorem readLimit_eq : Settings.readLimit (r.around.valueOf? Settings.limitVariable) =
    match r.variableFailure? Decimal.readNatural? (0 < ·) Settings.limitVariable with
    | some e => .error e
    | none => .ok ((r.given? Decimal.readNatural? Settings.limitVariable).getD
        Settings.standard.limit) := by
  unfold Settings.readLimit variableFailure? given?
  rcases r.around.valueOf? Settings.limitVariable with _ | raw
  · rfl
  simp only [Option.bind_some]
  rcases Decimal.readNatural? (Text.trim raw.toList) with _ | _ | limit <;> rfl

theorem readFolder_eq : Settings.readFolder (r.around.valueOf? Settings.folderVariable) =
    ((r.around.valueOf? Settings.folderVariable).filter fun raw =>
      Text.trim raw.toList ≠ []).getD Settings.standard.folder := by
  unfold Settings.readFolder
  rcases r.around.valueOf? Settings.folderVariable with _ | raw
  · rfl
  · by_cases hblank : Text.trim raw.toList = [] <;> simp [Option.filter, hblank]

/-! ## The stages one by one -/

/-- The settings are those in effect, unless the variables or the options for them fail. -/
theorem settings_eq : (settings r.options r.around.valueOf?).mapError RunError.settings =
    match settingStages.findSome? r.failure? with
    | some e => .error e
    | none => .ok ⟨r.side, r.limit, r.folder⟩ := by
  unfold settings Settings.ofVariables settingStages
  rw [readSide_eq, readLimit_eq, readFolder_eq]
  simp only [List.findSome?_cons, List.findSome?_nil, failure?, side, limit, folder, isSide_eq]
  rcases r.variableFailure? Decimal.readFloat? isSide Settings.sideVariable with _ | e
  swap
  · rfl
  rcases r.variableFailure? Decimal.readNatural? (0 < ·) Settings.limitVariable with _ | e
  swap
  · rfl
  rcases r.options.side with _ | side'
  · rcases r.options.limit with _ | _ | limit' <;> rfl
  · by_cases hu : Scalar.usable side' = true
    · rcases r.options.limit with _ | _ | limit' <;> simp [hu] <;> rfl
    · simp [hu]
      rfl

theorem settings_of_pass (h : settingStages.findSome? r.failure? = none) :
    settings r.options r.around.valueOf? = .ok ⟨r.side, r.limit, r.folder⟩ := by
  have hsettings := r.settings_eq
  rw [h] at hsettings
  rcases hs : settings r.options r.around.valueOf? with e | s <;> rw [hs] at hsettings <;>
    cases hsettings
  rfl

theorem usable_side (h : settingStages.findSome? r.failure? = none) :
    Scalar.usable r.side = true := by
  have hvariable : r.failure? .sideVariable = none :=
    List.findSome?_eq_none_iff.1 h _ (by decide)
  have hoption : r.failure? .sideOption = none := List.findSome?_eq_none_iff.1 h _ (by decide)
  unfold failure? at hvariable hoption
  unfold side
  rcases hside : r.options.side with _ | side
  · rw [Option.map_eq_none_iff] at hvariable
    obtain ⟨-, hnone⟩ | ⟨side, hsome, hgood⟩ := given?_of_pass hvariable
    · rw [hnone]
      decide
    · rw [hsome]
      exact hgood
  · rw [hside] at hoption
    rw [Option.getD_some, ← isSide_eq]
    by_contra hu
    simp [hu] at hoption

/-- There is a description, or the stage of reading it from standard input fails. -/
theorem description_cases :
    (∃ text, r.text? = some text ∧ description r.options r.around = .ok text ∧
      r.failure? .input = none) ∨
    ∃ cause, r.text? = none ∧ description r.options r.around = .error cause ∧
      r.failure? .input = some (.input cause) := by
  unfold text? description failure? Files.asText
  rcases r.options.description with _ | text
  · rcases r.around.input with cause | bytes
    · exact .inr ⟨cause, rfl, rfl, rfl⟩
    · rcases htext : String.fromUTF8? bytes with _ | text <;> simp [Except.toOption, htext]
  · exact .inl ⟨text, rfl, rfl, rfl⟩

/-- What a run is to draw, and with what settings, unless a stage before drawing fails. -/
theorem ofOptions_eq :
    match preparation.findSome? r.failure? with
    | some e => Job.ofOptions r.options r.around = .error e
    | none =>
      ∃ d, r.diagram? = some d ∧
        Job.ofOptions r.options r.around = .ok ⟨⟨r.side, r.limit, r.folder⟩, d⟩ := by
  unfold Job.ofOptions preparation
  rw [List.findSome?_append]
  rcases hfail : settingStages.findSome? r.failure? with _ | e
  · rw [r.settings_of_pass hfail, Option.none_or]
    obtain ⟨text, htext, hdescription, hinput⟩ | ⟨cause, -, hdescription, hinput⟩ :=
      r.description_cases
    · have hreading : r.reading? = some (Description.read r.limit text.toList) := by
        rw [reading?, htext]
        rfl
      rw [List.findSome?_cons, hinput, List.findSome?_cons, hdescription]
      simp only [failure?, diagram?, hreading]
      rcases hd : Description.read r.limit text.toList with e | d
      · rfl
      · exact ⟨d, rfl, rfl⟩
    · rw [List.findSome?_cons, hinput, hdescription]
  · have hsettings := r.settings_eq
    rw [hfail] at hsettings
    rcases hs : settings r.options r.around.valueOf? with e' | s <;> rw [hs] at hsettings <;>
      cases hsettings
    rfl

/-- The drawing of a run is the one without a cache. -/
theorem job_lines (d : Diagram) (hu : Scalar.usable r.side = true) :
    (Job.mk ⟨r.side, r.limit, r.folder⟩ d).lines r.tools r.files =
      match d.leaves.findSome? (lookupFailure? r.answer) with
      | some e => .error (.drawing e)
      | none => .ok (r.lines d) := by
  obtain ⟨hresult, hcanvas⟩ :=
    Diagram.renderOn_cached r.answer d r.side (Canvas.blank none) ()
  have hs : (Source.ofFunction r.answer : Source Unit).Answers r.answer := fun _ _ => rfl
  rw [Diagram.renderOn_unlimited hs d hu rfl] at hresult
  have hlines := Job.lines_eq (Job.mk ⟨r.side, r.limit, r.folder⟩ d) r.tools r.files
  have hanswer : Folder.answer r.tools.decoder r.files r.folder = r.answer := rfl
  simp only [hanswer, hresult, hcanvas] at hlines
  rw [hlines]
  rcases d.leaves.findSome? (lookupFailure? r.answer) with _ | e <;> rfl

variable {r : Request} {args : List String}

/-- What comes of a run: the failure of its first stage that fails, or else the drawing. -/
theorem run_eq (hargs : r.tools.invocation args r.around.valueOf? = .run r.options) :
    match stages.findSome? r.failure? with
    | some e => r.tools.run args r.around r.files = .failed e
    | none =>
      ∃ d, r.diagram? = some d ∧ r.tools.run args r.around r.files = .printed (r.lines d) := by
  have hjob := r.ofOptions_eq
  unfold Tools.run
  simp only [hargs]
  rw [stages_eq, List.findSome?_append]
  rcases hfail : preparation.findSome? r.failure? with _ | e <;>
    rw [hfail] at hjob
  · obtain ⟨d, hdiagram, hjob⟩ := hjob
    rw [preparation, List.findSome?_append, Option.or_eq_none_iff] at hfail
    have hlines := r.job_lines d (r.usable_side hfail.1)
    have hdrawing : r.failure? .drawing =
        (d.leaves.findSome? (lookupFailure? r.answer)).map .drawing := by
      simp only [failure?, hdiagram]
    rw [hjob, Option.none_or, List.findSome?_cons, hdrawing]
    rcases hleaf : d.leaves.findSome? (lookupFailure? r.answer) with _ | e <;>
      rw [hleaf] at hlines <;> simp only [hlines, Option.map_none, Option.map_some]
    exact ⟨d, hdiagram, rfl⟩
  · rw [hjob, Option.some_or]

theorem failure?_drawing_eq_none_iff : r.failure? .drawing = none ↔
    ∀ d, r.diagram? = some d → ∀ name ∈ d.leaves, ∃ g, r.answer name = .ok g := by
  unfold failure?
  rcases r.diagram? with _ | d <;>
    simp [List.findSome?_eq_none_iff, lookupFailure?_eq_none_iff]

theorem failure?_drawing_eq_some {e : RunError} (h : r.failure? .drawing = some e) :
    ∃ d before name after cause, r.diagram? = some d ∧ d.leaves = before ++ name :: after ∧
      (∀ n ∈ before, ∃ g, r.answer n = .ok g) ∧ r.answer name = .error cause ∧
        e = .drawing (.leaf name cause) := by
  unfold failure? at h
  rcases hdiagram : r.diagram? with _ | d <;> simp only [hdiagram] at h
  · cases h
  obtain ⟨e, hfirst, rfl⟩ := Option.map_eq_some_iff.1 h
  obtain ⟨before, name, after, hleaves, he, hbefore⟩ := List.findSome?_eq_some_iff.1 hfirst
  obtain ⟨cause, hcause, rfl⟩ := lookupFailure?_eq_some_iff.1 he
  exact ⟨d, before, name, after, cause, rfl, hleaves,
    fun n hn => lookupFailure?_eq_none_iff.1 (hbefore n hn), hcause, rfl⟩

/-- Where all runes have a glyph, the drawing succeeds. -/
theorem drawn_eq {d : Diagram} (hu : Scalar.usable r.side = true)
    (h : ∀ name ∈ d.leaves, ∃ g, r.answer name = .ok g) : (r.drawn d).1 = .ok () := by
  have hs : (Source.ofFunction r.answer : Source Unit).Answers r.answer := fun _ _ => rfl
  have hnone : d.leaves.findSome? (lookupFailure? (α := Float) r.answer) = none :=
    List.findSome?_eq_none_iff.2 fun name hname => lookupFailure?_eq_none_iff.2 (h name hname)
  unfold drawn
  rw [Diagram.renderOn_unlimited hs d hu rfl, hnone]

theorem oneLine_of_mem_lines (hline : ∀ op, Text.OneLine (r.tools.line op)) (d : Diagram) :
    ∀ line ∈ r.lines d, Text.OneLine line := by
  intro line hmem
  obtain ⟨op, -, rfl⟩ := List.mem_map.1 hmem
  exact hline op

theorem prints_of_pass (hargs : r.tools.invocation args r.around.valueOf? = .run r.options)
    (hline : ∀ op, Text.OneLine (r.tools.line op))
    (h : ∀ stage ∈ stages, r.failure? stage = none) :
    ∃ d, r.Prints (r.tools.run args r.around r.files) d := by
  have hrun := run_eq hargs
  rw [List.findSome?_eq_none_iff.2 h] at hrun
  obtain ⟨d, hdiagram, hprinted⟩ := hrun
  have hsettings : settingStages.findSome? r.failure? = none :=
    List.findSome?_eq_none_iff.2 fun stage hstage => h stage (List.mem_append_left _ hstage)
  have hleaves := failure?_drawing_eq_none_iff.1 (h .drawing (by decide))
  have hdrawn : (r.drawn d).1 = .ok () :=
    drawn_eq (r.usable_side hsettings) (hleaves d hdiagram)
  refine ⟨d, r.settings_of_pass hsettings, hdiagram, hdrawn, hprinted, ?_, ?_, ?_, ?_⟩
  all_goals rw [hprinted]
  · rfl
  · rfl
  · exact Text.splitOn_ofLines (oneLine_of_mem_lines hline d)
  · rfl

theorem failsAt_of_failure (hargs : r.tools.invocation args r.around.valueOf? = .run r.options)
    {e : RunError} (h : stages.findSome? r.failure? = some e) :
    ∃ stage, r.FailsAt (r.tools.run args r.around r.files) stage e := by
  have hrun := run_eq hargs
  rw [h] at hrun
  dsimp only at hrun
  obtain ⟨before, stage, after, hstages, hfails, hpassed⟩ := List.findSome?_eq_some_iff.1 h
  refine ⟨stage, ⟨before, after, hstages, hpassed⟩, hfails, hrun, ?_, ?_, ?_⟩
  all_goals
    rw [hrun]
    rfl

end Request

/-! ## What a run looks at -/

section LooksAt

variable {tools : Tools} {o : Options} {w w' : Surroundings}
  {files files' : String → Except Files.FileFault ByteArray}

theorem ofOptions_congr (hvalues : w.valueOf? = w'.valueOf?)
    (hinput : needsInput o w.valueOf? = true → w.input = w'.input) :
    Job.ofOptions o w = Job.ofOptions o w' := by
  unfold Job.ofOptions
  unfold needsInput at hinput
  rw [hvalues] at hinput ⊢
  rcases hs : settings o w'.valueOf? with e | s
  · rfl
  rw [hs] at hinput
  have hdescription : description o w = description o w' := by
    unfold description
    rcases ho : o.description with _ | text
    · rw [ho] at hinput
      rw [hinput rfl]
    · rfl
  rw [hdescription]

theorem Job.lines_congr {job : Job} (h : ∀ path ∈ job.paths, files path = files' path) :
    job.lines tools files = job.lines tools files' := by
  have hanswers : job.diagram.leaves.map (Folder.answer tools.decoder files job.settings.folder) =
      job.diagram.leaves.map (Folder.answer tools.decoder files' job.settings.folder) := by
    refine List.map_congr_left fun name hname => ?_
    unfold Folder.answer
    rw [h _ (List.mem_map_of_mem hname)]
  rw [← Source.answers_cached_empty _ _ (), ← Source.answers_cached_empty _ _ ()] at hanswers
  obtain ⟨hresult, hcanvas⟩ :=
    Diagram.renderOn_congr hanswers job.settings.side (Canvas.blank none)
  rw [lines_eq, lines_eq, hresult, hcanvas]

namespace Tools

/-- A run looks at the variables, at standard input if it needs it, and at the files of the runes
that it draws. -/
theorem run_congr {args : List String} (hvalues : w.valueOf? = w'.valueOf?)
    (hinput : ∀ o, tools.invocation args w.valueOf? = .run o → needsInput o w.valueOf? = true →
      w.input = w'.input)
    (hfiles : ∀ path ∈ tools.paths args w, files path = files' path) :
    tools.run args w files = tools.run args w' files' := by
  unfold paths at hfiles
  unfold run
  rw [← hvalues]
  rcases hargs : tools.invocation args w.valueOf? with _ | _ | _ | o
  · rfl
  · rfl
  · rfl
  simp only [hargs] at hfiles ⊢
  rw [← ofOptions_congr hvalues (hinput o hargs)]
  rcases hjob : Job.ofOptions o w with e | job
  · rfl
  · rw [hjob] at hfiles
    simp only [Job.lines_congr hfiles]

end Tools

end LooksAt

namespace Tools

/-- A run that is asked for a drawing prints all of it, one line an operation, and ends with code 0,
exactly if no stage fails. Otherwise it prints nothing, ends with code 1 and reports the failure of
the first stage that fails. Drawing fails exactly if a rune has no glyph, and as the first of
them. All this holds for any tools that write an operation in one line. -/
theorem run_stops_at_first_failing_stage (tools : Tools)
    (hline : ∀ op, Text.OneLine (tools.line op)) {args : List String} {w : Surroundings}
    {o : Options} (hargs : tools.invocation args w.valueOf? = .run o)
    (files : String → Except Files.FileFault ByteArray) :
    let r : Request := ⟨tools, o, w, files⟩
    let outcome := tools.run args w files
    (outcome.exitCode = 0 ↔ ∀ stage ∈ stages, r.failure? stage = none) ∧
      ((∃ d, r.Prints outcome d) ∨ ∃ stage e, r.FailsAt outcome stage e) ∧
      (r.failure? .drawing = none ↔
        ∀ d, r.diagram? = some d → ∀ name ∈ d.leaves, ∃ g, r.answer name = .ok g) ∧
      ∀ e, r.failure? .drawing = some e → Reportable.code e = "E_RENDER_LEAF" ∧
        ∃ d before name after cause, r.diagram? = some d ∧ d.leaves = before ++ name :: after ∧
          (∀ n ∈ before, ∃ g, r.answer n = .ok g) ∧ r.answer name = .error cause ∧
            e = .drawing (.leaf name cause) := by
  intro r outcome
  have hargs' : r.tools.invocation args r.around.valueOf? = .run r.options := hargs
  have hline' : ∀ op, Text.OneLine (r.tools.line op) := hline
  refine ⟨⟨fun hzero => ?_, fun h => ?_⟩, ?_, Request.failure?_drawing_eq_none_iff, fun e he => ?_⟩
  · rw [← List.findSome?_eq_none_iff]
    rcases hfirst : stages.findSome? r.failure? with _ | e
    · rfl
    · obtain ⟨stage, hfails⟩ := Request.failsAt_of_failure hargs' hfirst
      have hone : outcome.exitCode = 1 := hfails.exitCode_eq
      omega
  · obtain ⟨d, hd⟩ := Request.prints_of_pass hargs' hline' h
    exact hd.exitCode_eq
  · rcases hfirst : stages.findSome? r.failure? with _ | e
    · exact .inl (Request.prints_of_pass hargs' hline' (List.findSome?_eq_none_iff.1 hfirst))
    · obtain ⟨stage, hfails⟩ := Request.failsAt_of_failure hargs' hfirst
      exact .inr ⟨stage, e, hfails⟩
  · obtain ⟨d, before, name, after, cause, hdiagram, hleaves, hbefore, hname, rfl⟩ :=
      Request.failure?_drawing_eq_some he
    exact ⟨rfl, d, before, name, after, cause, hdiagram, hleaves, hbefore, hname, rfl⟩

theorem oneLine_line_standard (op : Op Float) : Text.OneLine (standard.line op) :=
  Json.newline_not_mem_text op.toJson

/-- A description that cannot be read, and standard input that cannot be read either. The limit is
wrong, and that is what is reported. -/
theorem run_limit_zero :
    (∀ op, Text.OneLine (standard.line op)) ∧
      standard.invocation ["--max-depth=0"] (fun _ => none) = .run { limit := some 0 } ∧
      (standard.run ["--max-depth=0"] ⟨fun _ => none, .error .isAFolder⟩
        fun _ => .error .missing).exitCode = 1 := by
  have hargs : standard.invocation ["--max-depth=0"] (fun _ => none) =
      .run { limit := some 0 } := rfl
  obtain ⟨hzero, hall, -⟩ := run_stops_at_first_failing_stage standard oneLine_line_standard
    (w := ⟨fun _ => none, .error .isAFolder⟩) hargs fun _ => .error .missing
  refine ⟨oneLine_line_standard, hargs, ?_⟩
  obtain ⟨d, hd⟩ | ⟨stage, e, he⟩ := hall
  · have hpass := hzero.1 hd.exitCode_eq .limitOption (by decide)
    cases hpass
  · exact he.exitCode_eq

end Tools

end Command

end MagicCircle
