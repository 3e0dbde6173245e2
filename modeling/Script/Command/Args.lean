import Script.Run.Failure

/-!
# Command line arguments

Arguments are read from left to right.  The first one that is wrong, or that asks for help or for
the version, decides.

## Main definitions

* `Args`: what the arguments have said so far.
* `Args.read`: reading a list of arguments.
* `Mode`, `resolve`: what a command line asks for.
-/

namespace Script

/-- What a command line asks for. -/
inductive Mode where
  | help (text : String)
  | info
  | batch (paths : List String)
  | repl
  deriving DecidableEq, Repr

/-- The summary of the arguments. -/
def helpText : String :=
  "Interpreter and REPL for PESL programs\n\nUsage: pesl [OPTIONS]\n\nOptions:\n" ++
  "  -f, --files <FILE>...  Source files to run, in order, as one program\n" ++
  "  -r, --repl             Start an interactive session\n" ++
  "  -i, --info             Describe this interpreter and its host functions\n" ++
  "  -h, --help             Print help\n" ++
  "  -V, --version          Print version\n"

/-- The name and version of the program. -/
def versionText : String := "pesl 0.1.0\n"

/-- What the arguments have said so far. -/
structure Args where
  files : Option (List String)
  repl : Bool
  info : Bool
  deriving DecidableEq, Repr

/-- A reason to read no further arguments. -/
inductive Args.Verdict where
  | wrong
  | show (text : String)
  deriving DecidableEq, Repr

namespace Args

/-- What is known before the first argument. -/
def start : Args := ⟨none, false, false⟩

/-- Adds files to those that were named before. -/
def addFiles (a : Args) (paths : List String) : Args :=
  { a with files := some (a.files.getD [] ++ paths) }

/-- Asks for an interactive session, which may be done once. -/
def setRepl (a : Args) : Except Verdict Args :=
  if a.repl then .error .wrong else .ok { a with repl := true }

/-- Asks for information, which may be done once. -/
def setInfo (a : Args) : Except Verdict Args :=
  if a.info then .error .wrong else .ok { a with info := true }

/-- Whether an argument is a value and no flag.  A hyphen alone is a value. -/
def isValue (arg : String) : Bool := arg = "-" || arg.toList.head? ≠ some '-'

/-- A text without the equals sign in front of it, if there is one. -/
def dropEquals : List Char → List Char
  | '=' :: rest => rest
  | cs => cs

/-- Short flags that stand together.  The answer says whether values for the last of them follow. -/
def readShort (a : Args) : List Char → Except Verdict (Args × Bool)
  | [] => .ok (a, false)
  | 'f' :: [] => .ok (a, true)
  | 'f' :: rest => .ok (a.addFiles [String.ofList (dropEquals rest)], false)
  | 'r' :: rest => do (← a.setRepl).readShort rest
  | 'i' :: rest => do (← a.setInfo).readShort rest
  | 'h' :: _ => .error (.show helpText)
  | 'V' :: _ => .error (.show versionText)
  | _ :: _ => .error .wrong

/-- A long flag, given by what follows its two hyphens.  The answer says whether values for it
follow. -/
def readLong (a : Args) (flag : List Char) : Except Verdict (Args × Bool) :=
  match String.ofList (flag.takeWhile (· ≠ '=')), flag.dropWhile (· ≠ '=') with
  | "files", [] => .ok (a, true)
  | "files", _ :: value => .ok (a.addFiles [String.ofList value], false)
  | "repl", [] => do .ok (← a.setRepl, false)
  | "info", [] => do .ok (← a.setInfo, false)
  | "help", [] => .error (.show helpText)
  | "version", [] => .error (.show versionText)
  | _, _ => .error .wrong

/-- An argument that is a flag. -/
def readFlag (a : Args) (arg : String) : Except Verdict (Args × Bool) :=
  match arg.toList with
  | '-' :: '-' :: flag => a.readLong flag
  | '-' :: c :: cluster => a.readShort (c :: cluster)
  | _ => .error .wrong

/-- What the next argument may be. -/
inductive Expecting where
  /-- A flag. -/
  | flag
  /-- The first value of a flag. -/
  | firstValue
  /-- A further value of a flag, or a flag. -/
  | moreValues
  deriving DecidableEq, Repr

/-- Reads arguments. -/
def read : Args → Expecting → List String → Except Verdict Args
  | _, .firstValue, [] => .error .wrong
  | a, _, [] => .ok a
  | a, expecting, arg :: rest =>
    if isValue arg then
      match expecting with
      | .flag => .error .wrong
      | _ => read (a.addFiles [arg]) .moreValues rest
    else
      match expecting with
      | .firstValue => .error .wrong
      | _ =>
        if arg = "--" then
          match rest with
          | [] => .ok a
          | _ => .error .wrong
        else do
          let (a, values) ← a.readFlag arg
          read a (if values then .firstValue else .flag) rest

/-- What the arguments ask for.  Information comes first, and files exclude an interactive session.
-/
def mode (a : Args) : Except Error Mode :=
  if a.info then .ok .info
  else
    match a.files, a.repl with
    | some _, true => .error .argumentConflict
    | some paths, false => .ok (.batch paths)
    | none, _ => .ok .repl

end Args

/-- What a command line asks for. -/
def resolve (args : List String) : Except Error Mode :=
  match Args.start.read .flag args with
  | .ok a => a.mode
  | .error (.show text) => .ok (.help text)
  | .error .wrong => .error .usage

end Script
