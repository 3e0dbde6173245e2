import Script.Command.Execute

/-!
# The program

Connects command lines with the standard streams, the file system and the exit status.  A session
shows its output after each line, so that it can be held at a terminal.
-/

namespace Script

/-- What the file system holds at the given paths. -/
def lookUp (paths : List String) : IO Files := do
  let here ← IO.currentDir
  let found ← paths.mapM fun (path : String) => do
    let isFile ← try pure ((← (here / path).metadata).type == .file) catch _ => pure false
    let content ← try some <$> IO.FS.readBinFile path catch _ => pure none
    return (path, isFile, content)
  return ⟨fun path => ((found.lookup path).map Prod.fst).getD false,
    fun path => (found.lookup path).bind Prod.snd⟩

/-- The bytes of the next line, its line end included.  There are none at the end of the input. -/
partial def readLine (input : IO.FS.Stream) (line : List UInt8) : IO (List UInt8) := do
  match (← input.read 1).toList with
  | [] => return line.reverse
  | b :: _ => if b = 10 then return (b :: line).reverse else readLine input (b :: line)

/-- Writes a response, and gives the exit status. -/
def Response.show (r : Response) : IO UInt32 := do
  IO.print r.out
  (← IO.getStdout).flush
  IO.eprint r.err
  return UInt32.ofNat (exitStatus r.code)

/-- Shows what a session has written, and forgets it. -/
def Session.show (s : Session) : IO Session := do
  IO.print s.out.stored
  (← IO.getStdout).flush
  IO.eprint s.err
  return { s with out := .unlimited, err := "" }

/-- Holds a session. -/
partial def Session.hold (s : Session) : IO UInt32 := do
  match s.emit [prompt] with
  | (.error e, s) => (Response.ofResult s.ns.store s.out.stored s.err (.error e)).show
  | (.ok (), s) =>
    let s ← s.show
    match ← readLine (← IO.getStdin) [] with
    | [] =>
      let (result, s) := s.emit ["\n"]
      (Response.ofResult s.ns.store s.out.stored s.err (result.map fun _ => .exhausted)).show
    | line =>
      match s.respond ampleFuel line with
      | (.ok .exhausted, s) => (← s.show).hold
      | (result, s) => (Response.ofResult s.ns.store s.out.stored s.err result).show

/-- Carries out a command line. -/
def runCommand (args : List String) : IO UInt32 := do
  match resolve args with
  | .ok .repl =>
    let (_, s) := Session.start.emit [Session.banner, "\n"]
    s.hold
  | .ok (.batch paths) => (execute ampleFuel args (← lookUp paths) []).show
  | _ => (execute ampleFuel args (← lookUp []) []).show

end Script

/-- Runs the program with the arguments of a command line. -/
def main (args : List String) : IO UInt32 := Script.runCommand args
