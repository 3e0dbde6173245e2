/-!
# Paths

A path is a text in which slashes separate the names of directories and of a file.
-/

namespace Script.Path

/-- The parts of a path between its slashes. -/
def split (path : List Char) : List (List Char) :=
  match path with
  | [] => [[]]
  | c :: rest =>
    if c = '/' then [] :: split rest
    else
      match split rest with
      | [] => [[c]]
      | part :: parts => (c :: part) :: parts

/-- The parts of a path, as texts. -/
def parts (path : String) : List String := (split path.toList).map String.ofList

/-- Whether a part of a path stays in the same directory. -/
def isStay (part : String) : Bool := part = "" || part = "."

/-- Whether a path begins at the root of the file system. -/
def isAbsolute (path : String) : Bool := path.toList.head? = some '/'

/-- The name of the file or directory that a path ends in, if the path ends in a name. -/
def fileName? (path : String) : Option String :=
  match ((parts path).filter fun part => !isStay part).getLast? with
  | some name => if name = ".." then none else some name
  | none => none

end Script.Path
