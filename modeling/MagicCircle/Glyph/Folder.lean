import MagicCircle.Files.Tree
import MagicCircle.Glyph.Codec
import MagicCircle.Glyph.Source

/-!
# Folders of glyphs

In a folder the glyph of a name is the content of the file with that name and the ending `.json`.
-/

namespace MagicCircle.Folder

open Files (Entry FileFault Path.join)

/-- The path of the file that holds the glyph of a name. -/
def path (folder name : String) : String := Path.join folder (name ++ ".json")

/-- The glyph of a name, from what reading its file gave. -/
def glyph (decoder : Glyph.Decoder) (name : String) (content : Except FileFault ByteArray) :
    Except GlyphError Glyph :=
  match Files.asText content with
  | .error .missing => .error (.notFound name)
  | .error cause => .error (.unreadable name cause)
  | .ok text => Glyph.decodeWith decoder name text

/-- The glyphs of a folder whose files do not change. -/
def answer (decoder : Glyph.Decoder) (files : String → Except FileFault ByteArray)
    (folder name : String) : Except GlyphError Glyph :=
  glyph decoder name (files (path folder name))

/-- The glyphs of a folder in a tree of files; relative paths start at `here`. -/
def sourceWith (decoder : Glyph.Decoder) (here : List String) (folder : String) : Source Entry :=
  fun name tree => (answer decoder (tree.read here) folder name, tree)

/-- The glyphs of a folder whose files are JSON texts. -/
def source (here : List String) (folder : String) : Source Entry :=
  sourceWith Glyph.json here folder

end MagicCircle.Folder
