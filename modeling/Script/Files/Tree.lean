import Script.Files.Source

/-!
# Directory trees in memory

A tree of directories and files, for runs that do not touch a disk.  Paths are followed part by
part, as in a file system: every part but the last must be a directory, and so must a part that a
slash or a dot follows.  Two dots lead to the directory around, also in the path of a new file.

## Main definitions

* `FileTree.enter?`: where one part of a path leads.
* `FileTree.walk`, `FileTree.find?`: what stands at a path.
* `FileTree.makeDirectories`, `FileTree.add`: putting something at a path.
-/

namespace Script

/-- A file with its bytes, or a directory. -/
inductive Entry where
  | file (content : ByteArray)
  | directory

/-- The files and directories below a directory, each with the names that lead to it. -/
structure FileTree where
  entries : List (List String × Entry)

namespace FileTree

/-- The tree of an empty directory. -/
def empty : FileTree := ⟨[]⟩

/-- What stands at a sequence of names.  The empty sequence is the directory itself. -/
def at? (t : FileTree) (names : List String) : Option Entry :=
  match names with
  | [] => some .directory
  | names => (t.entries.find? fun e => e.1 == names).map Prod.snd

/-- The tree with something put at a sequence of names. -/
def put (t : FileTree) (names : List String) (entry : Entry) : FileTree :=
  ⟨(names, entry) :: t.entries⟩

/-- Where a part of a path leads from a directory.  Both places are given by their names, the
innermost first.  A path cannot leave the tree. -/
def enter? (here : List String) (part : String) : Option (List String) :=
  if Path.isStay part then some here
  else if part = ".." then
    match here with
    | [] => none
    | _ :: outer => some outer
  else some (part :: here)

/-- The place that the parts of a path lead to from a directory.  Every place on the way must be a
directory. -/
def walk (t : FileTree) (here : List String) : List String → Option (List String)
  | [] => some here
  | part :: rest =>
    match t.at? here.reverse with
    | some .directory => (enter? here part).bind fun next => t.walk next rest
    | _ => none

/-- The greatest number of bytes in a path.  A longer one names nothing. -/
def maxPathBytes : Nat := 4095

/-- What stands at a path. -/
def find? (t : FileTree) (path : String) : Option Entry :=
  if path = "" || Path.isAbsolute path || maxPathBytes < path.utf8ByteSize then none
  else (t.walk [] (Path.parts path)).bind fun names => t.at? names.reverse

/-- Follows the parts of a path from a directory, and makes the directories that are missing on the
way.  The answer has the place that the path leads to; there is none if a file stands in the way. -/
def makeDirectories (t : FileTree) (here : List String) :
    List String → Option (FileTree × List String)
  | [] => some (t, here)
  | part :: rest =>
    match enter? here part with
    | none => none
    | some next =>
      match t.at? next.reverse with
      | some .directory => t.makeDirectories next rest
      | some (.file _) => none
      | none => (t.put next.reverse .directory).makeDirectories next rest

/-- The tree with a directory at a path, and the directories on the way to it. -/
def addDirectory (t : FileTree) (path : String) : FileTree :=
  match t.makeDirectories [] (Path.parts path) with
  | some (t, _) => t
  | none => t

/-- The tree with a file at a path, and the directories on the way to it.  A file that was there is
replaced, and a directory stays. -/
def addFile (t : FileTree) (path : String) (content : ByteArray) : FileTree :=
  let parts := Path.parts path
  match t.makeDirectories [] parts.dropLast, Path.fileName? (parts.getLastD "") with
  | some (made, here), some name =>
    match made.at? (name :: here).reverse with
    | some .directory => t
    | _ => made.put (name :: here).reverse (.file content)
  | _, _ => t

/-- The tree with something put at a path. -/
def add (t : FileTree) (path : String) : Entry → FileTree
  | .directory => t.addDirectory path
  | .file content => t.addFile path content

/-- The bytes of the file at a path. -/
def content? (t : FileTree) (path : String) : Option ByteArray :=
  match t.find? path with
  | some (.file content) => some content
  | _ => none

/-- The files of a tree. -/
def files (t : FileTree) : Files :=
  ⟨fun path => (t.content? path).isSome, t.content?⟩

end FileTree

end Script
