import Script.Files.Source
import Script.Run.Pass

/-!
# Batch runs

A batch run runs whole source texts without showing the values of their statements.  A failure of
the script ends it.
-/

namespace Script

/-- A batch run: the namespace and the output so far. -/
structure Batch where
  ns : Namespace
  sink : Sink

namespace Batch

/-- A batch run before its first source, with the native functions. -/
def start : Batch := ⟨.prelude, .unlimited⟩

/-- How sources are run. -/
def pass (fuel : Nat) : Pass Unit := ⟨.fatal, .discard, fuel⟩

/-- Runs a source text. -/
def runSource (fuel : Nat) (source : String) (b : Batch) : Except Error Flow × Batch :=
  let (result, now) := (pass fuel).runSource source ⟨b.ns, b.sink, ()⟩
  (result, ⟨now.ns, now.sink⟩)

/-- Runs the texts of source files, in order, as one program. -/
def runFiles (fuel : Nat) (files : Files) (paths : List String) (b : Batch) :
    Except Error Flow × Batch :=
  match files.load paths with
  | .error e => (.error e, b)
  | .ok source => b.runSource fuel source

end Batch

end Script
