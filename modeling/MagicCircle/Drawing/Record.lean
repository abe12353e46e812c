import MagicCircle.Drawing.Basic
import MagicCircle.Glyph.Folder
import MagicCircle.Glyph.Slots

/-!
# What a drawing reads

A record of the names that a source is asked for, or of the files that are opened for them. A folder
of glyphs works with any way of reading files, so also with one that keeps a record.
-/

namespace MagicCircle

variable {ι α β σ τ : Type}

/-- Does the same and keeps what it is asked for, in order. -/
def recorded (f : ι → StateM τ β) : ι → StateM (List ι × τ) β := fun i s =>
  let (b, t) := f i s.2
  (b, (s.1 ++ [i], t))

/-- Drawing the diagram records nothing but the entries given, in this order and each at most once,
whether the source is used directly, behind a table of the glyphs found or behind slots. -/
structure Diagram.RecordsWithin [Scalar α] (d : Diagram) (entries : List ι)
    (source : Source (List ι × σ)) (side : α) (c : Canvas α) (s : σ) : Prop where
  direct : (d.renderOn source side c ([], s)).2.2.1.Sublist entries
  cached : (d.renderOn source.cached side c ({}, [], s)).2.2.2.1.Sublist entries
  slotted : (d.renderOn source.slotted side c ({}, [], s)).2.2.2.1.Sublist entries

namespace Folder

open Files (FileFault)

/-- The glyphs of a folder, with files read in the given way. -/
def readWith (decoder : Glyph.Decoder)
    (readFile : String → StateM τ (Except FileFault ByteArray)) (folder : String) : Source τ :=
  fun name t =>
    let (content, t') := readFile (path folder name) t
    (glyph decoder name content, t')

/-- A folder in a tree of files reads from that tree. -/
theorem sourceWith_eq_readWith (decoder : Glyph.Decoder) (here : List String) (folder : String) :
    sourceWith decoder here folder =
      readWith decoder (fun path tree => (tree.read here path, tree)) folder := rfl

/-- The path leads from the folder to an entry directly in it: it has one component more, in which
there is nothing that a path gives a meaning to. -/
structure Holds (folder file path : String) : Prop where
  path_eq : path = Files.Path.join folder file
  components : Files.Path.components path = Files.Path.components folder ++ [file]
  absolute : Files.Path.isAbsolute path = Files.Path.isAbsolute folder
  relative : Files.Path.isAbsolute file = false
  no_slash : '/' ∉ file.toList
  no_nul : '\x00' ∉ file.toList
  no_dots : ¬ ['.', '.'] <:+: file.toList

end Folder

end MagicCircle
