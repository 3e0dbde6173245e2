/-!
# Output sinks

A program writes its output to a sink.  A sink may have a limit on the number of bytes that it
stores. A write that would exceed the limit is refused as a whole.
-/

namespace Script

/-- Why reading or writing failed. -/
inductive IoError where
  | sinkFull
  | notUtf8
  deriving DecidableEq, Repr

/-- The wording of each failure. -/
def IoError.message : IoError → String
  | sinkFull => "sink full"
  | notUtf8 => "stream did not contain valid UTF-8"

/-- The output so far, and the number of bytes that it may have. -/
structure Sink where
  stored : String
  limit : Option Nat
  deriving DecidableEq, Repr

namespace Sink

/-- An empty sink that accepts every write. -/
def unlimited : Sink := ⟨"", none⟩

/-- An empty sink that stores at most `n` bytes. -/
def limited (n : Nat) : Sink := ⟨"", some n⟩

/-- Whether the sink has room for a text. -/
def accepts (s : Sink) (text : String) : Bool :=
  match s.limit with
  | none => true
  | some n => s.stored.utf8ByteSize + text.utf8ByteSize ≤ n

/-- Writes a text, and says whether it was accepted.  A sink that refuses a text stores none of it.
Writing nothing is no write, and always succeeds. -/
def write (s : Sink) (text : String) : Bool × Sink :=
  if text.isEmpty || s.accepts text then (true, { s with stored := s.stored ++ text })
  else (false, s)

/-- Writes a text and then, if that was accepted, a line end. -/
def writeLine (s : Sink) (text : String) : Bool × Sink :=
  match s.write text with
  | (true, s) => s.write "\n"
  | (false, s) => (false, s)

end Sink

end Script
