import Script.Eval.Stmt
import Script.Parser.Stmt
import Script.Run.Failure
import Script.Run.Namespace

/-!
# Running a source text

A pass reads a source text as tokens, and then parses and runs one statement after the other.  So a
statement takes effect before the next one is parsed.  An observer sees the value of each statement
right after the statement is done.

## Main definitions

* `Observer`: what is done with the values of statements; `discard` and `echo`.
* `Pass`: how a source is run.
* `Pass.runTokens`, `Pass.runSource`: running the rest of a token stream, and a source text.
-/

namespace Script

/-- How a pass ended, if nothing went wrong: there are no more statements, or the program asked to
exit. -/
inductive Flow where
  | exhausted
  | exit (code : Int32)
  deriving DecidableEq, Repr

/-- The exit code of a pass. -/
def Flow.code : Flow → Int32
  | exhausted => 0
  | exit code => code

/-- What is done with the value of a statement: it may be written to the output, and remembered in a
state of type `ω`.  If a write is refused, the pass ends.  An observer looks at the objects of the
store, also at the contents of an array or a map that it is shown, but it cannot change them. -/
abbrev Observer (ω : Type) := Value → Store → Sink → ω → Except IoError Unit × Sink × ω

namespace Observer

/-- Pays no attention. -/
def discard : Observer Unit := fun _ _ sink seen => (.ok (), sink, seen)

/-- Writes each value on a line of its own. -/
def echo : Observer Unit := fun value store sink seen =>
  match sink.writeLine (store.display value) with
  | (true, sink) => (.ok (), sink, seen)
  | (false, sink) => (.error .sinkFull, sink, seen)

end Observer

/-- How a source is run: what a failure means, who sees the values of statements, and how long each
statement may take. -/
structure Pass (ω : Type) where
  policy : Policy
  observer : Observer ω
  fuel : Nat

/-- Where a pass stands: the namespace, the output, and what the observer remembers. -/
structure Progress (ω : Type) where
  ns : Namespace
  sink : Sink
  seen : ω

/-- A bound on the length of an evaluation that no evaluation reaches in practice. -/
def ampleFuel : Nat := Nat.pow 10 18

namespace Pass

variable {ω : Type}

/-- The failure of a script under the policy of the pass. -/
def interrupt (p : Pass ω) (failure : ScriptFailure) : Error := .script ⟨failure, p.policy⟩

/-- The machine at the start of a statement. -/
def machine (now : Progress ω) : Machine := ⟨now.ns.store, now.sink, now.ns.root, 0⟩

/-- Where the pass stands after a statement that left the given machine. -/
def resume (now : Progress ω) (m : Machine) : Progress ω :=
  { now with ns := { now.ns with store := m.store }, sink := m.sink }

/-- The error or exit that a stop of a statement means for the pass. -/
def halt (p : Pass ω) : Stop → Except Error Flow
  | .raise payload => .error (p.interrupt (.eval payload))
  | .exit code => .ok (.exit code)
  | .fault f => .error (.faulty f)
  | .outOfFuel => .error .outOfFuel

/-- Shows a value to the observer. -/
def observe (p : Pass ω) (value : Value) (now : Progress ω) : Except Error Unit × Progress ω :=
  match p.observer value now.ns.store now.sink now.seen with
  | (.ok (), sink, seen) => (.ok (), { now with sink := sink, seen := seen })
  | (.error e, sink, seen) => (.error (.io e), { now with sink := sink, seen := seen })

/-- Runs the statements of a stream, at most `rounds` of them. -/
def runTokens (p : Pass ω) :
    (rounds : Nat) → TokenStream → Progress ω → Except Error Flow × Progress ω
  | 0, _, now => (.ok .exhausted, now)
  | rounds + 1, tokens, now =>
    if tokens.hasRemaining then
      match tokens.parseNext with
      | (.error e, _) => (.error (p.interrupt (.parse e)), now)
      | (.ok stmt, tokens) =>
        match stmt.erase.evaluate p.fuel (machine now) with
        | .error stop m => (p.halt stop, resume now m)
        | .ok value m =>
          match p.observe value (resume now m) with
          | (.error e, now) => (.error e, now)
          | (.ok (), now) => p.runTokens rounds tokens now
    else (.ok .exhausted, now)

/-- Runs a source text.  Each statement has at least one token, so there are no more statements than
tokens. -/
def runSource (p : Pass ω) (source : String) (now : Progress ω) :
    Except Error Flow × Progress ω :=
  match TokenStream.ofSource source with
  | .error e => (.error (p.interrupt (.lex e)), now)
  | .ok tokens => p.runTokens tokens.length tokens now

end Pass

end Script
