import Script.Files.Path
import Script.Run.Failure

/-!
# Source files

Which files are source files, and how the texts of several become one program.
-/

namespace Script

/-- What can be asked about the files that paths name: whether there is a regular file, and what its
bytes are. -/
structure Files where
  isFile : String → Bool
  read? : String → Option ByteArray

namespace Files

/-- The ending of the names of source files. -/
def sourceSuffix : String := ".pesl"

/-- Whether a file name is that of a source file: it has the right ending, and something before. -/
def isSourceName (name : String) : Bool :=
  name.endsWith sourceSuffix && sourceSuffix.length < name.length

/-- Whether a path names a source file. -/
def isSource (files : Files) (path : String) : Bool :=
  match Path.fileName? path with
  | some name => files.isFile path && isSourceName name
  | none => false

/-- The text of a source file. -/
def text (files : Files) (path : String) : Except Error String :=
  if files.isSource path then
    match (files.read? path).bind String.fromUTF8? with
    | some text => .ok text
    | none => .error (.unreadable path)
  else .error (.notAFile path)

/-- The texts of source files, in order.  The first path that has none decides the error. -/
def texts (files : Files) : List String → Except Error (List String)
  | [] => .ok []
  | path :: rest => do
    let first ← files.text path
    let others ← files.texts rest
    .ok (first :: others)

/-- The texts of source files as one program, with a space between them. -/
def load (files : Files) (paths : List String) : Except Error String := do
  .ok (" ".intercalate (← files.texts paths))

end Files

end Script
