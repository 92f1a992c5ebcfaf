import TypedLet.Numeral

/-!
# Arguments of the command line

Arguments are read from left to right, in groups of one or two. The last source text and the last step
limit count; a file can be named once, and not together with a source text.
-/

namespace TypedLet.Command

structure Options where
  inputFile : Option String
  source : Option String
  showType : Bool
  maxSteps : Option Nat
  help : Bool
  deriving DecidableEq, Repr

/-- What no arguments ask for. -/
def Options.none : Options := ⟨.none, .none, false, .none, false⟩

inductive UsageError where
  | noSource (flag : String)
  /-- A step limit is missing, no number, zero or too large. -/
  | badStepLimit
  | unknownOption (arg : String)
  | secondFile
  | fileAndSource
  deriving DecidableEq, Repr

def UsageError.message : UsageError → String
  | noSource flag => flag ++ " requires source text"
  | badStepLimit => "--max-steps requires a positive integer"
  | unknownOption arg => "Unknown option: " ++ arg
  | secondFile => "Multiple input files not supported"
  | fileAndSource => "Give either a file or --eval, not both"

/-- The step limit that a text stands for: digits alone, for a number from 1 to `maxExact`. -/
def stepLimit? (text : String) : Option Nat :=
  let ds := text.toList
  let n := Numeral.ofDigits ds
  if !ds.isEmpty && ds.all Numeral.isDigit && 0 < n && n ≤ Numeral.maxExact then some n else none

namespace Options

/-- Reads the arguments into options that hold what was read before. -/
def read (o : Options) : List String → Except UsageError Options
  | [] => .ok o
  | arg :: rest =>
    if arg = "-h" ∨ arg = "--help" then read { o with help := true } rest
    else if arg = "-t" ∨ arg = "--type" then read { o with showType := true } rest
    else if arg = "-e" ∨ arg = "--eval" then
      match rest with
      | [] => .error (.noSource arg)
      | text :: rest => read { o with source := some text } rest
    else if arg = "--max-steps" then
      match rest with
      | [] => .error .badStepLimit
      | text :: rest =>
        match stepLimit? text with
        | some n => read { o with maxSteps := some n } rest
        | .none => .error .badStepLimit
    else if arg.toList.head? = some '-' then .error (.unknownOption arg)
    else if o.inputFile.isSome then .error .secondFile
    else read { o with inputFile := some arg } rest

def parse (args : List String) : Except UsageError Options :=
  match Options.none.read args with
  | .error e => .error e
  | .ok o => if o.inputFile.isSome && o.source.isSome then .error .fileAndSource else .ok o

end Options

end TypedLet.Command
