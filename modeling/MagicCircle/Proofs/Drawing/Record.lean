import MagicCircle.Drawing.Record
import MagicCircle.Proofs.Description.Scanner
import MagicCircle.Proofs.Description.Words
import MagicCircle.Proofs.Drawing.Lookups
import MagicCircle.Proofs.Files.Path

/-!
# No description leads out of the folder of glyphs

`Description.read_stays_in_folder`: a drawing asks its source for the names of its runes only, with
a cache between them or without. These are words of the description, so that the paths opened for
them lead to files directly in the folder. Nothing but the reading of the description makes sure of
that: a rune could have any name, and the folder takes every name that it is asked for.
-/

namespace MagicCircle

open scoped List

variable {α β σ τ : Type}

/-! ## Records of look-ups -/

namespace Source

/-- A look-up adds the entry of its name to a log in the state of the source, or nothing. -/
def Records (store : Source σ) (log : σ → List β) (entry : String → β) : Prop :=
  ∀ name s, log (store name s).2 = log s ∨ log (store name s).2 = log s ++ [entry name]

namespace Records

variable {store : Source σ} {log : σ → List β} {entry : String → β}

theorem recorded (source : Source σ) : Records (recorded source) Prod.fst id :=
  fun _ _ => .inr rfl

theorem readWith (decoder : Glyph.Decoder)
    (readFile : String → StateM τ (Except Files.FileFault ByteArray)) (folder : String) :
    Records (Folder.readWith decoder (MagicCircle.recorded readFile) folder) Prod.fst
      (Folder.path folder) :=
  fun _ _ => .inr rfl

theorem cached (h : store.Records log entry) :
    store.cached.Records (fun s => log s.2) entry := by
  intro name s
  have hname := h name s.2
  unfold Source.cached
  rcases s.1.get? name with _ | g
  · rcases hs : store name s.2 with ⟨e | g, t⟩ <;> rw [hs] at hname <;> exact hname
  · exact .inl rfl

theorem slotted (h : store.Records log entry) :
    store.slotted.Records (fun s => log s.2) entry := by
  intro name s
  have hname := h name s.2
  unfold Source.slotted
  simp only
  rcases (s.1.claim name).2.glyph? (s.1.claim name).1 with _ | g
  · rcases hs : store name s.2 with ⟨e | g, t⟩ <;> rw [hs] at hname <;> exact hname
  · exact .inl rfl

theorem asked (h : store.Records log entry) : ∀ (names : List String) (s : σ),
    ∃ new, new <+ names.map entry ∧ log (store.asked names s) = log s ++ new
  | [], s => ⟨[], .slnil, (List.append_nil _).symm⟩
  | name :: names, s => by
    obtain ⟨new, hnew, hlog⟩ := h.asked names (store name s).2
    rcases h name s with hs | hs <;> rw [hs] at hlog
    · exact ⟨new, hnew.cons _, hlog⟩
    · exact ⟨entry name :: new, hnew.cons_cons _, by rw [List.append_cons]; exact hlog⟩

/-- A drawing records entries of its runes' names, in their order. -/
theorem renderOn [Scalar α] (h : store.Records log entry) (d : Diagram) (side : α) (c : Canvas α)
    {s : σ} (hs : log s = []) : log (d.renderOn store side c s).2.2 <+ d.leaves.map entry := by
  obtain ⟨done, hdone, hstate⟩ := d.renderOn_asks store side c s
  obtain ⟨new, hnew, hlog⟩ := h.asked done s
  rw [hstate, hlog, hs, List.nil_append]
  exact hnew.trans (hdone.sublist.map entry)

theorem recordsWithin [Scalar α] {store : Source (List β × σ)} (h : store.Records Prod.fst entry)
    (d : Diagram) (side : α) (c : Canvas α) (s : σ) :
    d.RecordsWithin (d.leaves.map entry) store side c s where
  direct := h.renderOn d side c rfl
  cached := h.cached.renderOn d side c rfl
  slotted := h.slotted.renderOn d side c rfl

end Records

end Source

/-! ## The file of a word -/

namespace Description.WordOf

variable {text : List Char} {name : String} (h : WordOf text name)
include h

theorem not_mem {c : Char} (hc : isWordChar c = false) : c ∉ name.toList :=
  fun hmem => ne_of_isWordChar (h.isWordChar_of_mem c hmem) hc rfl

theorem not_mem_file {c : Char} (hc : isWordChar c = false) (hend : c ∉ ".json".toList) :
    c ∉ (name ++ ".json").toList := by
  rw [String.toList_append, List.mem_append, not_or]
  exact ⟨h.not_mem hc, hend⟩

/-- The only dot in the name of the file is that of its ending. -/
theorem not_dots_file : ¬ ['.', '.'] <:+: (name ++ ".json").toList := by
  intro hdots
  have hcount := hdots.sublist.count_le '.'
  rw [String.toList_append, List.count_append, List.count_eq_zero.2 (h.not_mem rfl)] at hcount
  exact absurd hcount (by decide)

theorem file_ne_nil : (name ++ ".json").toList ≠ [] := by
  rw [String.toList_append]
  exact List.append_ne_nil_of_left_ne_nil h.nonempty _

theorem slash_not_mem_file : '/' ∉ (name ++ ".json").toList := h.not_mem_file rfl (by decide)

theorem holds (folder : String) :
    Folder.Holds folder (name ++ ".json") (Folder.path folder name) := by
  have hslash := h.slash_not_mem_file
  exact ⟨rfl, Files.Path.components_join hslash h.file_ne_nil, Files.Path.isAbsolute_join hslash,
    Files.Path.isAbsolute_eq_false hslash, hslash, h.not_mem_file rfl (by decide), h.not_dots_file⟩

theorem exists_entry {root : Files.Entry} {here : List String} {folder : String}
    {content : ByteArray} (hread : root.read here (Folder.path folder name) = .ok content) :
    ∃ entries, root.walk (if Files.Path.isAbsolute folder then [] else here)
        (Files.Path.components folder) = .ok (.folder entries) ∧
      entries.lookup (name ++ ".json") = some (.file content) := by
  have hj : 'j' ∈ (name ++ ".json").toList := by simp
  refine Files.Entry.read_join h.slash_not_mem_file h.file_ne_nil ?_ ?_ hread
  · intro hdot
    rw [hdot] at hj
    exact absurd hj (by decide)
  · intro hdots
    rw [hdots] at hj
    exact absurd hj (by decide)

end Description.WordOf

namespace Description

variable [Scalar α]

/-- Where a diagram was read from a text, all names that its drawing looks up are words of the text,
with a cache in between or without. The paths opened for them are that of the folder with one plain
component more, and what is read there is a file directly in the folder. -/
theorem read_stays_in_folder {limit : Nat} {text : List Char} {d : Diagram}
    (h : read limit text = .ok d) (side : α) (c : Canvas α) :
    (∀ name ∈ d.leaves, WordOf text name) ∧
      (∀ (source : Source σ) (s : σ),
        d.RecordsWithin d.leaves (recorded source) side c s) ∧
      ∀ folder : String,
        (∀ (decoder : Glyph.Decoder)
          (readFile : String → StateM τ (Except Files.FileFault ByteArray)) (t : τ),
          d.RecordsWithin (d.leaves.map (Folder.path folder))
            (Folder.readWith decoder (recorded readFile) folder) side c t) ∧
        ∀ name ∈ d.leaves,
          Folder.Holds folder (name ++ ".json") (Folder.path folder name) ∧
            ∀ (root : Files.Entry) (here : List String) (content : ByteArray),
              root.read here (Folder.path folder name) = .ok content →
                ∃ entries, root.walk (if Files.Path.isAbsolute folder then [] else here)
                    (Files.Path.components folder) = .ok (.folder entries) ∧
                  entries.lookup (name ++ ".json") = some (.file content) := by
  have hwords : ∀ name ∈ d.leaves, WordOf text name := wordOf_of_read h
  refine ⟨hwords, fun source s => ?_,
    fun folder => ⟨fun decoder readFile t => ?_, fun name hname => ?_⟩⟩
  · have hrecords := (Source.Records.recorded source).recordsWithin d side c s
    rwa [List.map_id] at hrecords
  · exact (Source.Records.readWith decoder readFile folder).recordsWithin d side c t
  · have hword := hwords name hname
    exact ⟨hword.holds folder, fun _ _ _ => hword.exists_entry⟩

/-- A text with one rune, and a folder at the root of all files. -/
theorem read_stays_in_folder_sun :
    read 64 ['(', 's', 'u', 'n', ')'] = .ok (.solo .spell (.rune "sun")) ∧
      Folder.Holds "/runes" "sun.json" "/runes/sun.json" := by
  have hread : read 64 ['(', 's', 'u', 'n', ')'] = .ok (.solo .spell (.rune "sun")) :=
    (read_eq_scanner_read ..).trans rfl
  obtain ⟨-, -, hfiles⟩ :=
    read_stays_in_folder (σ := Unit) (τ := Unit) hread (1 : Float) (Canvas.blank none)
  have hholds := ((hfiles "/runes").2 "sun" (.head _)).1
  have hpath : Folder.path "/runes" "sun" = "/runes/sun.json" := by decide
  rw [hpath] at hholds
  exact ⟨hread, hholds⟩

end Description

end MagicCircle
