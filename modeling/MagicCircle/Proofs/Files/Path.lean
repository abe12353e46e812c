import MagicCircle.Files.Tree
import Mathlib.Tactic.SplitIfs

/-!
# Paths into a folder

The path of a name in a folder has the components of the folder and the name
(`Path.components_join`), and where it leads to a file, that file is directly in the folder
(`Entry.read_join`).
-/

namespace MagicCircle.Files

namespace Path

theorem splitSlash_ne_nil : ∀ cs : List Char, splitSlash cs ≠ []
  | [] => by simp [splitSlash]
  | c :: cs => by
    rw [splitSlash, List.foldr_cons]
    split
    · exact List.cons_ne_nil _ _
    · split <;> exact List.cons_ne_nil _ _

theorem splitSlash_cons_slash (cs : List Char) : splitSlash ('/' :: cs) = [] :: splitSlash cs := rfl

theorem splitSlash_cons {c : Char} (hc : c ≠ '/') {cs p : List Char} {ps : List (List Char)}
    (h : splitSlash cs = p :: ps) : splitSlash (c :: cs) = (c :: p) :: ps := by
  unfold splitSlash at h ⊢
  rw [List.foldr_cons, h, if_neg hc]

/-- A slash ends one part and starts the next. -/
theorem splitSlash_append_slash (ds : List Char) : ∀ cs : List Char,
    splitSlash (cs ++ '/' :: ds) = splitSlash cs ++ splitSlash ds
  | [] => rfl
  | c :: cs => by
    have ih := splitSlash_append_slash ds cs
    by_cases hc : c = '/'
    · subst hc
      rw [List.cons_append, splitSlash_cons_slash, splitSlash_cons_slash, ih, List.cons_append]
    · obtain ⟨p, ps, hp⟩ := List.exists_cons_of_ne_nil (splitSlash_ne_nil cs)
      rw [hp, List.cons_append] at ih
      rw [List.cons_append, splitSlash_cons hc ih, splitSlash_cons hc hp, List.cons_append]

theorem splitSlash_of_no_slash : ∀ {cs : List Char}, '/' ∉ cs → splitSlash cs = [cs]
  | [], _ => rfl
  | c :: cs, h => by
    rw [List.mem_cons, not_or] at h
    exact splitSlash_cons (Ne.symm h.1) (splitSlash_of_no_slash h.2)

theorem isAbsolute_eq_false {name : String} (h : '/' ∉ name.toList) : isAbsolute name = false := by
  unfold isAbsolute
  rcases hn : name.toList with _ | ⟨c, cs⟩
  · rfl
  · rw [hn, List.mem_cons, not_or] at h
    simpa using Ne.symm h.1

variable {folder name : String}

/-- A name without a slash is put after the folder, with one slash between them. -/
theorem toList_join (folder : String) (hslash : '/' ∉ name.toList) :
    folder.toList = [] ∧ (join folder name).toList = name.toList ∨
      (∃ cs, folder.toList = cs ++ ['/'] ∧
        (join folder name).toList = cs ++ '/' :: name.toList) ∨
      folder.toList ≠ [] ∧ (join folder name).toList = folder.toList ++ '/' :: name.toList := by
  have habs : isAbsolute name = false := isAbsolute_eq_false hslash
  unfold join
  rw [habs, Bool.false_or]
  split_ifs with hempty hlast
  · exact .inl ⟨by simpa using hempty, rfl⟩
  · rw [beq_iff_eq, List.getLast?_eq_some_iff] at hlast
    obtain ⟨cs, hcs⟩ := hlast
    refine .inr (.inl ⟨cs, hcs, ?_⟩)
    rw [String.toList_append, hcs, List.append_assoc]
    rfl
  · refine .inr (.inr ⟨by simpa using hempty, ?_⟩)
    rw [String.toList_append, String.toList_append, List.append_assoc]
    rfl

theorem components_join (hslash : '/' ∉ name.toList) (hname : name.toList ≠ []) :
    components (join folder name) = components folder ++ [name] := by
  have hparts : splitSlash name.toList = [name.toList] := splitSlash_of_no_slash hslash
  have hnil : splitSlash [] = [[]] := rfl
  unfold components
  obtain ⟨hfolder, hjoin⟩ | ⟨cs, hfolder, hjoin⟩ | ⟨-, hjoin⟩ :=
    toList_join folder hslash
  · simp [hjoin, hfolder, hparts, hnil, hname]
  · simp [hjoin, hfolder, splitSlash_append_slash, hparts, hnil, hname]
  · simp [hjoin, splitSlash_append_slash, hparts, hname]

theorem isAbsolute_join (hslash : '/' ∉ name.toList) :
    isAbsolute (join folder name) = isAbsolute folder := by
  have hname : isAbsolute name = false := isAbsolute_eq_false hslash
  unfold isAbsolute at hname ⊢
  obtain ⟨hfolder, hjoin⟩ | ⟨cs, hfolder, hjoin⟩ | ⟨hne, hjoin⟩ :=
    toList_join folder hslash
  · rw [hjoin, hfolder, hname]
    rfl
  · rw [hjoin, hfolder]
    rcases cs with _ | ⟨c, cs⟩ <;> rfl
  · obtain ⟨c, cs, hcs⟩ := List.exists_cons_of_ne_nil hne
    rw [hjoin, hcs]
    rfl

end Path

namespace Entry

variable {root : Entry} {name : String}

theorem at?_concat {entries : List (String × Entry)} : ∀ {here : List String} {root : Entry},
    root.at? here = some (folder entries) → root.at? (here ++ [name]) = entries.lookup name
  | [], _, h => by
    cases Option.some.inj h
    simp [at?]
  | part :: here, root, h => by
    rcases root with content | entries'
    · simp [at?] at h
    · unfold at? at h
      obtain ⟨e, he, h⟩ := Option.bind_eq_some_iff.1 h
      rw [List.cons_append, at?, he]
      exact at?_concat h

/-- The last component of a path is looked up in the folder that the ones before it lead to. -/
theorem walk_concat (hdot : name ≠ ".") (hdots : name ≠ "..") {e : Entry} :
    ∀ (parts here : List String), walk root here (parts ++ [name]) = .ok e →
      ∃ entries, walk root here parts = .ok (folder entries) ∧ entries.lookup name = some e
  | [], here, h => by
    rw [List.nil_append, walk] at h
    rcases hat : root.at? here with _ | content | entries <;> simp only [hat] at h
    · cases h
    · cases h
    rw [if_neg hdot, if_neg hdots] at h
    refine ⟨entries, by rw [walk, hat], ?_⟩
    split_ifs at h
    rcases hl : entries.lookup name with _ | e' <;> simp only [hl] at h
    · cases h
    · rw [walk, at?_concat hat, hl] at h
      exact congrArg some (Except.ok.inj h)
  | part :: parts, here, h => by
    rw [List.cons_append, walk] at h
    rw [walk]
    rcases hat : root.at? here with _ | content | entries <;> simp only [hat] at h ⊢
    · cases h
    · cases h
    split_ifs at h ⊢
    · exact walk_concat hdot hdots parts here h
    · exact walk_concat hdot hdots parts here.dropLast h
    · rcases hl : entries.lookup part with _ | e' <;> simp only [hl] at h ⊢
      · cases h
      · exact walk_concat hdot hdots parts (here ++ [part]) h

/-- A file that is read at the path of a name in a folder is one of that folder's entries. -/
theorem read_join {here : List String} {dir : String} {content : ByteArray}
    (hslash : '/' ∉ name.toList) (hname : name.toList ≠ []) (hdot : name ≠ ".")
    (hdots : name ≠ "..") (h : root.read here (Path.join dir name) = .ok content) :
    ∃ entries, walk root (if Path.isAbsolute dir then [] else here) (Path.components dir) =
        .ok (folder entries) ∧ entries.lookup name = some (.file content) := by
  unfold read at h
  rw [Path.isAbsolute_join hslash, Path.components_join hslash hname] at h
  generalize (if Path.isAbsolute dir then [] else here) = start at h ⊢
  split_ifs at h
  split at h <;> cases h
  exact walk_concat hdot hdots _ _ ‹_›

end Entry

end MagicCircle.Files
