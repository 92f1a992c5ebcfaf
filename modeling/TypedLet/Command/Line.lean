import TypedLet.Command.Options
import TypedLet.Report

/-!
# The command line

A command reads its arguments, finds the program text they name, runs it, and says on one of two
channels how that went. What it does is a transcript: the lines it writes and the files it reads, in
order, and its exit code. A success writes to the first channel alone and has code 0; a failure writes
to the second alone and has code 1. How deep evaluations may be nested is up to the machine that the
command runs on, so `depth` is given to it beside its arguments.
-/

namespace TypedLet.Command

inductive Action where
  | out (line : String)
  | err (line : String)
  | read (path : String)
  deriving DecidableEq, Repr

/-- What a command does, and its exit code. -/
structure Transcript where
  actions : List Action
  code : Nat
  deriving DecidableEq, Repr

inductive FileResult where
  | text (content : String)
  /-- The file cannot be read, for a reason that is known. -/
  | failed (reason : String)
  /-- The file cannot be read, and nobody says why. -/
  | failedSilently
  deriving DecidableEq, Repr

def usage : String :=
  "letpl - run a letpl program\n" ++
  "\n" ++
  "Usage:\n" ++
  "  letpl <file> [options]\n" ++
  "  letpl -e <source> [options]\n" ++
  "  letpl                       Start the interactive REPL\n" ++
  "\n" ++
  "Options:\n" ++
  "  -e, --eval <source>   Run source given on the command line\n" ++
  "  -t, --type            Also print the program's type\n" ++
  "  --max-steps <n>       Abort evaluation after n steps\n" ++
  "  -h, --help            Show this help"

namespace Transcript

def success (lines : List String) : Transcript := ⟨lines.map .out, 0⟩

def failure (lines : List String) : Transcript := ⟨lines.map .err, 1⟩

def afterReading (path : String) (t : Transcript) : Transcript :=
  { t with actions := .read path :: t.actions }

def outLines (t : Transcript) : List String :=
  t.actions.filterMap fun
    | .out line => some line
    | _ => none

def errLines (t : Transcript) : List String :=
  t.actions.filterMap fun
    | .err line => some line
    | _ => none

end Transcript

/-- The limits of a run: the steps that the options allow, at a depth that is given. -/
def Options.limits (depth : Option Nat) (o : Options) : Limits :=
  ⟨o.maxSteps.map fun n => .ofInt n, depth⟩

/-- Runs a program text. The label says in a report where the text comes from. -/
def runText (fuel : Nat) (depth : Option Nat) (o : Options) (label source : String) :
    Option Transcript :=
  (runSource fuel (o.limits depth) [] source).map fun
    | .ok outcome =>
      .success (outcome.value.render :: if o.showType then [": " ++ outcome.type.render] else [])
    | .error failure => .failure [label ++ ": " ++ failure.report]

/-- The file that a command with these arguments reads, if it reads one. -/
def fileToRead? (args : List String) : Option String :=
  match Options.parse args with
  | .ok o => if o.help || o.source.isSome then none else o.inputFile
  | .error _ => none

def perform (fuel : Nat) (depth : Option Nat) (files : String → FileResult) (o : Options) :
    Option Transcript :=
  if o.help then some (.success [usage])
  else
    match o.source, o.inputFile with
    | some source, _ => runText fuel depth o "<eval>" source
    | none, some path =>
      (match files path with
        | .text source => runText fuel depth o path source
        | .failed reason => some (.failure ["Error reading file: " ++ path, reason])
        | .failedSilently => some (.failure ["Error reading file: " ++ path])).map
        (.afterReading path)
    | none, none => some (.failure ["Error: No input file specified", usage])

def run (fuel : Nat) (depth : Option Nat) (files : String → FileResult) (args : List String) :
    Option Transcript :=
  match Options.parse args with
  | .error e => some (.failure [Stage.other.report e.message, usage])
  | .ok o => perform fuel depth files o

end TypedLet.Command
