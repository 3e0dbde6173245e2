import Script.Command.Args
import Script.Run.Batch
import Script.Run.Session

/-!
# Executing a command line

What a command line writes, and the code with which it ends.
-/

namespace Script

/-- The description of the interpreter. -/
def infoText : String :=
  "PESL command-line interpreter and REPL.\n" ++
  "Language sources and documentation: https://github.com/jearmstrong21/PESL\n" ++
  "Run with -h or --help for a summary of the arguments.\n\n" ++
  "Programs run here start with two host functions:\n" ++
  "  println([value])  prints the value (or nothing) followed by a newline\n" ++
  "  exit([code])      stops the interpreter with the given exit code (default 0)\n"

/-- What a command wrote to its two outputs, and its exit code. -/
structure Response where
  code : Int32
  out : String
  err : String
  deriving DecidableEq, Repr

/-- The response to a run that ended in the given way after writing the given texts.  An error is
reported on a line of its own. -/
def Response.ofResult (σ : Store) (out err : String) : Except Error Flow → Response
  | .ok flow => ⟨flow.code, out, err⟩
  | .error e => ⟨1, out, err ++ e.message σ ++ "\n"⟩

/-- Carries out what a command line asks for. -/
def Mode.execute (fuel : Nat) (files : Files) (input : List UInt8) : Mode → Response
  | help text => ⟨0, text, ""⟩
  | info => ⟨0, infoText, ""⟩
  | batch paths =>
    let (result, b) := Batch.start.runFiles fuel files paths
    .ofResult b.ns.store b.sink.stored "" result
  | repl =>
    let (result, s) := Session.start.run fuel input
    .ofResult s.ns.store s.out.stored s.err result

/-- Executes a command line. -/
def execute (fuel : Nat) (args : List String) (files : Files) (input : List UInt8) : Response :=
  match resolve args with
  | .ok mode => mode.execute fuel files input
  | .error e => .ofResult .empty "" "" (.error e)

/-- The status that a process with the given exit code ends with. -/
def exitStatus (code : Int32) : Nat := (code.toInt % 256).toNat

end Script
