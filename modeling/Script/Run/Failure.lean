import Script.Eval.Machine
import Script.Parser.Error
import Script.Token.Lexer
import Script.Value.Render

/-!
# Failures and how they are reported

A script fails when its text has no tokens, when its tokens are no statement, or when a statement
raises a value that nothing catches.  Other errors end a run without being the script's fault.

## Main definitions

* `ScriptFailure`: the three ways in which a script fails, and their reports.
* `Error`: all that can end a run other than the end of the script or a request to exit.
-/

namespace Script

/-- The ways in which a script fails. -/
inductive ScriptFailure where
  | lex (error : LexError)
  | parse (error : ParseError)
  | eval (payload : Value)
  deriving DecidableEq, Repr

namespace ScriptFailure

/-- What went wrong, without the place.  An uncaught value is shown as it is in the store `σ`. -/
def message (σ : Store) : ScriptFailure → String
  | lex e => e.message
  | parse e => e.message
  | eval payload => σ.display payload

/-- What went wrong, and where. -/
def report (σ : Store) : ScriptFailure → String
  | lex e => e.message ++ "\nAt index " ++ toString e.index
  | parse e => e.message ++ "\nAt token " ++ e.token.describe ++ " " ++ e.token.span.describe
  | eval payload => σ.display payload

end ScriptFailure

/-- Whether a failure of the script ends the session. -/
inductive Policy where
  | fatal
  | recoverable
  deriving DecidableEq, Repr

/-- A failure of a script that was run under a policy. -/
structure Interruption where
  failure : ScriptFailure
  policy : Policy
  deriving DecidableEq, Repr

/-- What can end a run, other than the end of the script or a request to exit. -/
inductive Error where
  | usage
  | argumentConflict
  | notAFile (path : String)
  | unreadable (path : String)
  | script (interruption : Interruption)
  | io (error : IoError)
  | faulty (fault : Fault)
  | outOfFuel
  deriving DecidableEq, Repr

namespace Error

/-- The wording of each error. -/
def message (σ : Store) : Error → String
  | usage => "Invalid arguments; run with -h or --help for a summary of the arguments."
  | argumentConflict => "Cannot run files and repl at the same time"
  | notAFile path => path ++ " is not a file"
  | unreadable path => "Error reading file " ++ path
  | script i => i.failure.report σ
  | io e => "I/O error: " ++ e.message
  | faulty _ => "Internal fault"
  | outOfFuel => "Evaluation did not end"

end Error

end Script
