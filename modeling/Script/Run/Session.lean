import Script.Run.Pass

/-!
# Interactive sessions

A session evaluates one line after the other in one namespace, and shows the value of each
statement. A failure of a line is reported, and the session goes on with the next line.

## Main definitions

* `Session`: the namespace, the output and the reports of a session.
* `Session.evalLine`: one line.
* `Session.splitLines`, `Session.decodeLine?`: the lines of an input.
* `Session.run`: a session over an input.
-/

namespace Script

/-- A session: the namespace, the output, and the reports of failures. -/
structure Session where
  ns : Namespace
  out : Sink
  err : String

namespace Session

/-- A session before its first line, with the native functions. -/
def start : Session := ⟨.prelude, .unlimited, ""⟩

/-- The first line of the output. -/
def banner : String := "PESL 0.1.0"

/-- What is written before a line is read. -/
def prompt : String := ">>> "

/-- How lines are run. -/
def pass (fuel : Nat) : Pass Unit := ⟨.recoverable, .echo, fuel⟩

/-- The session with a further report. -/
def report (s : Session) (failure : ScriptFailure) : Session :=
  { s with err := s.err ++ failure.report s.ns.store ++ "\n" }

/-- Evaluates a line.  A failure of the script that is not fatal is reported and then forgotten. -/
def evalLine (fuel : Nat) (line : String) (s : Session) : Except Error Flow × Session :=
  let (result, now) := (pass fuel).runSource line ⟨s.ns, s.out, ()⟩
  let s : Session := ⟨now.ns, now.sink, s.err⟩
  match result with
  | .error (.script ⟨failure, .recoverable⟩) => (.ok .exhausted, s.report failure)
  | result => (result, s)

/-- The lines of an input.  A line ends with the byte of a line end, which belongs to it; the last
line may be without. -/
def splitLines : List UInt8 → List (List UInt8)
  | [] => []
  | b :: rest =>
    if b = 10 then [b] :: splitLines rest
    else
      match splitLines rest with
      | [] => [[b]]
      | line :: lines => (b :: line) :: lines

/-- Whether a character is dropped at the end of a line. -/
def isLineEnd (c : Char) : Bool := c = '\n' || c = '\r'

/-- A text without the line ends at its end. -/
def trimLine (line : String) : String :=
  String.ofList (line.toList.reverse.dropWhile isLineEnd).reverse

/-- The text of a line, if its bytes are those of a text. -/
def decodeLine? (line : List UInt8) : Option String :=
  (String.fromUTF8? ⟨line.toArray⟩).map trimLine

/-- Writes texts to the output, until one is refused. -/
def emit : List String → Session → Except Error Unit × Session
  | [], s => (.ok (), s)
  | text :: rest, s =>
    match s.out.write text with
    | (true, out) => emit rest { s with out := out }
    | (false, out) => (.error (.io .sinkFull), { s with out := out })

/-- Evaluates a line of the input. -/
def respond (fuel : Nat) (line : List UInt8) (s : Session) : Except Error Flow × Session :=
  match decodeLine? line with
  | none => (.error (.io .notUtf8), s)
  | some text => s.evalLine fuel text

/-- Writes the prompt and then evaluates a line of the input. -/
def answer (fuel : Nat) (line : List UInt8) (s : Session) : Except Error Flow × Session :=
  match s.emit [prompt] with
  | (.error e, s) => (.error e, s)
  | (.ok (), s) => s.respond fuel line

/-- Goes through the lines of an input, until one of them ends the session. -/
def runLines (fuel : Nat) : List (List UInt8) → Session → Except Error Flow × Session
  | [], s =>
    match s.emit [prompt, "\n"] with
    | (.error e, s) => (.error e, s)
    | (.ok (), s) => (.ok .exhausted, s)
  | line :: rest, s =>
    match s.answer fuel line with
    | (.ok .exhausted, s) => runLines fuel rest s
    | (result, s) => (result, s)

/-- A session over an input. -/
def run (fuel : Nat) (input : List UInt8) (s : Session) : Except Error Flow × Session :=
  match s.emit [banner, "\n"] with
  | (.error e, s) => (.error e, s)
  | (.ok (), s) => s.runLines fuel (splitLines input)

end Session

end Script
