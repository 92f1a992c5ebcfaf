import TypedLet.Executable

/-!
# The program

The outer layer: it reads the arguments, the files and the standard input, and writes what the library
answers. It decides nothing else.
-/

namespace TypedLet.Main

/-- The depth to which evaluations may be nested on the stack of this process. -/
def depth : Option Nat := some 10000

def writeLines (stream : IO.FS.Stream) (lines : List String) : IO Unit := do
  for line in lines do
    stream.putStrLn line
  stream.flush

def readFile (path : String) : IO Command.FileResult := do
  try
    return .text (← IO.FS.readFile path)
  catch e =>
    let known (e : Executable.ReadError) := Executable.fileResult path (.error e)
    match e with
    | .noFileOrDirectory .. => return known .missing
    | .inappropriateType (some _) .. => return known .notDirectory
    | .inappropriateType none .. => return known .isDirectory
    | .invalidArgument .. => return known .tooLong
    | other => return .failed (toString other)

/-- Runs the command line. The file that it may read is read beforehand. -/
def command (args : List String) : IO UInt32 := do
  let file ← match Command.fileToRead? args with
    | some path => readFile path
    | none => pure .failedSilently
  match Command.run ampleFuel depth (fun _ => file) args with
  | none => return 1
  | some t =>
    writeLines (← IO.getStdout) t.outLines
    writeLines (← IO.getStderr) t.errLines
    return t.code.toUInt32

def ask : IO Unit := do
  let stdout ← IO.getStdout
  stdout.putStr Executable.prompt
  stdout.flush

/-- Takes lines that have been read, and asks for one more after each. Gives the state behind them, or
nothing where the session has ended. -/
def takeLines : Session.State → List String → IO (Option Session.State)
  | state, [] => return some state
  | state, line :: lines => do
    match Session.step ampleFuel depth state line with
    | none => return none
    | some reply =>
      writeLines (← IO.getStdout) reply.lines
      if reply.more then
        ask
        takeLines reply.state lines
      else return none

/-- Takes lines until the input or the session ends. -/
partial def loop (state : Session.State) : IO Unit := do
  let text ← (← IO.getStdin).getLine
  if text.isEmpty then return
  match ← takeLines state (Text.lines text) with
  | none => return
  | some state => loop state

def session : IO UInt32 := do
  let stdout ← IO.getStdout
  stdout.putStr Executable.banner
  ask
  loop .start
  stdout.putStr Executable.farewell
  return 0

end TypedLet.Main

/-- The entry point: a session without arguments, the command line with some. -/
def main (args : List String) : IO UInt32 :=
  if args.isEmpty then TypedLet.Main.session else TypedLet.Main.command args
