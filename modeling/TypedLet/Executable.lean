import TypedLet.Command.Line
import TypedLet.Session
import TypedLet.Text.Lines

/-!
# The executable

With arguments the executable is the command line, and without any it is a session on its standard
input. Both are told here as functions from what the executable is given to what it writes. The machine
gives it the depth to which evaluations may be nested, and the files.
-/

namespace TypedLet.Executable

/-- What the executable leaves behind. -/
structure Result where
  code : Nat
  stdout : String
  stderr : String
  deriving DecidableEq, Repr

def written (lines : List String) : String :=
  String.join (lines.map (· ++ "\n"))

/-! ## Files -/

/-- Why the machine cannot read the file at a path. -/
inductive ReadError where
  | missing
  /-- The way goes on behind a file. -/
  | notDirectory
  | tooLong
  | isDirectory
  deriving DecidableEq, Repr

def ReadError.message (path : String) : ReadError → String
  | missing => "ENOENT: no such file or directory, open '" ++ path ++ "'"
  | notDirectory => "ENOTDIR: not a directory, open '" ++ path ++ "'"
  | tooLong => "ENAMETOOLONG: name too long, open '" ++ path ++ "'"
  | isDirectory => "EISDIR: illegal operation on a directory, read"

def fileResult (path : String) : Except ReadError String → Command.FileResult
  | .ok content => .text content
  | .error e => .failed (e.message path)

/-! ## Sessions -/

/-- What stands at the start of a session, before the first prompt. -/
def banner : String := "letpl REPL\nType :help for available commands, :exit to quit\n\n"

def prompt : String := "> "

def farewell : String := "\nGoodbye!\n"

/-- What a session writes behind a prompt, up to its end. -/
def dialogue (fuel : Nat) (depth : Option Nat) : Session.State → List String → Option String
  | _, [] => some farewell
  | state, line :: lines => do
    let reply ← Session.step fuel depth state line
    if reply.more then
      let rest ← dialogue fuel depth reply.state lines
      return written reply.lines ++ prompt ++ rest
    else
      return written reply.lines ++ farewell

/-! ## The whole -/

def run (fuel : Nat) (depth : Option Nat) (files : String → Except ReadError String) (stdin : String)
    (args : List String) : Option Result :=
  if args.isEmpty then
    (dialogue fuel depth .start (Text.lines stdin)).map fun text =>
      ⟨0, banner ++ prompt ++ text, ""⟩
  else
    (Command.run fuel depth (fun path => fileResult path (files path)) args).map fun t =>
      ⟨t.code, written t.outLines, written t.errLines⟩

end TypedLet.Executable
