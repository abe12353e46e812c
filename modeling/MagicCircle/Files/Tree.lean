import MagicCircle.Files.Fault
import MagicCircle.Files.Path

/-!
# A tree of files

Folders and files as plain data, with the rules by which a path leads to the content of a file. The
place of an entry is the list of the names that lead to it from the root.
-/

namespace MagicCircle.Files

/-- A file with its bytes, or a folder with its named entries. -/
inductive Entry
  | file (content : ByteArray)
  | folder (entries : List (String × Entry))

namespace Entry

def at? (e : Entry) : List String → Option Entry
  | [] => some e
  | name :: place =>
    match e with
    | file _ => none
    | folder entries => (entries.lookup name).bind fun e => e.at? place

def putIn (entries : List (String × Entry)) (name : String) (e : Entry) : List (String × Entry) :=
  (name, e) :: entries.filter fun p => p.1 ≠ name

/-- Puts an entry at a place, in new folders where there are none. -/
def put (new : Entry) : List String → Entry → Entry
  | [], _ => new
  | name :: place, folder entries =>
    folder (putIn entries name (put new place ((entries.lookup name).getD (folder []))))
  | name :: place, file _ => folder [(name, put new place (folder []))]

/-- Makes sure that there is a folder at a place. -/
def makeFolder (e : Entry) (place : List String) : Entry :=
  match e.at? place with
  | some (folder _) => e
  | _ => put (folder []) place e

def remove : List String → Entry → Entry
  | [], e => e
  | [name], folder entries => folder (entries.filter fun p => p.1 ≠ name)
  | name :: place, folder entries =>
    match entries.lookup name with
    | some e => folder (putIn entries name (remove place e))
    | none => folder entries
  | _ :: _, file content => file content

def greatestName : Nat := 255

/-- The number of bytes from which on a path is too long. -/
def pathBound : Nat := 4096

/-- The entry that the components of a path lead to from a place. Each component is looked up in a
folder; `.` stays there and `..` leads to the folder around it. -/
def walk (root : Entry) (here : List String) : List String → Except FileFault Entry
  | [] => match root.at? here with
    | some e => .ok e
    | none => .error .missing
  | name :: rest =>
    match root.at? here with
    | none => .error .missing
    | some (file _) => .error .notAFolder
    | some (folder entries) =>
      if name = "." then walk root here rest
      else if name = ".." then walk root here.dropLast rest
      else if greatestName < name.utf8ByteSize then .error .nameTooLong
      else match entries.lookup name with
        | none => .error .missing
        | some _ => walk root (here ++ [name]) rest

/-- The bytes of the file at a path, which starts at `here` unless it is absolute. -/
def read (root : Entry) (here : List String) (path : String) : Except FileFault ByteArray :=
  if path.toList.contains '\x00' then .error .nulInName
  else if pathBound ≤ path.utf8ByteSize then .error .nameTooLong
  else if path.isEmpty then .error .missing
  else
    match walk root (if Path.isAbsolute path then [] else here) (Path.components path) with
    | .error e => .error e
    | .ok (folder _) => .error .isAFolder
    | .ok (file content) => .ok content

/-- The place that a path names, in a tree where its folders exist. -/
def placeOf (here : List String) (path : String) : List String :=
  (Path.components path).foldl
    (fun place name =>
      if name = "." then place else if name = ".." then place.dropLast else place ++ [name])
    (if Path.isAbsolute path then [] else here)

end Entry

end MagicCircle.Files
