/-!
# Paths

A path is a text whose components are separated by slashes; one that starts with a slash starts at
the root of all files.
-/

namespace MagicCircle.Files.Path

def isAbsolute (path : String) : Bool := path.toList.head? == some '/'

/-- The parts of a text between slashes, empty ones included. -/
def splitSlash (cs : List Char) : List (List Char) :=
  cs.foldr (fun c parts => if c = '/' then [] :: parts
    else match parts with
      | [] => [[c]]
      | p :: ps => (c :: p) :: ps) [[]]

/-- The components of a path; doubled slashes count as one. -/
def components (path : String) : List String :=
  ((splitSlash path.toList).filter (· ≠ [])).map String.ofList

/-- The path of `name` inside the folder at `folder`. An absolute name stands for itself. -/
def join (folder name : String) : String :=
  if isAbsolute name || folder.isEmpty then name
  else if folder.toList.getLast? == some '/' then folder ++ name
  else folder ++ "/" ++ name

/-- The components of a path without those that stay where they are; only at the start of a path is
such a component kept. -/
def plainComponents (path : String) : List String :=
  match isAbsolute path, components path with
  | false, "." :: rest => "." :: rest.filter (· ≠ ".")
  | _, parts => parts.filter (· ≠ ".")

/-- Whether two paths are written alike but for doubled slashes and components that stay where they
are. -/
def sameAs (p q : String) : Bool :=
  isAbsolute p == isAbsolute q && plainComponents p == plainComponents q

end MagicCircle.Files.Path
