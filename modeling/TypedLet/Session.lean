import TypedLet.Expr.Printer
import TypedLet.Report
import TypedLet.Text.Blank

/-!
# Interactive sessions

A session takes one line at a time. A line that starts with a colon is a command, and any other is a
program, which is evaluated, checked or shown according to the mode. Only the mode and the choice to
show types pass from one line to the next. As for a command, how deep evaluations may be nested is given.
-/

namespace TypedLet.Session

inductive Mode where
  | eval
  | check
  | ast
  deriving DecidableEq, Repr, Inhabited

def Mode.render : Mode → String
  | eval => "eval"
  | check => "check"
  | ast => "ast"

def Mode.all : List Mode := [.eval, .check, .ast]

def Mode.ofWord? (word : String) : Option Mode :=
  all.find? fun mode => mode.render = word

/-- What passes from one line to the next. -/
structure State where
  mode : Mode
  showType : Bool
  deriving DecidableEq, Repr, Inhabited

def State.start : State := ⟨.eval, true⟩

structure Reply where
  /-- Whether the session goes on. -/
  more : Bool
  lines : List String
  state : State
  deriving DecidableEq, Repr, Inhabited

/-! ## Commands -/

inductive Command where
  | help
  | mode
  | type
  | exit
  deriving DecidableEq, Repr

namespace Command

def name : Command → String
  | help => "help"
  | mode => "mode"
  | type => "type"
  | exit => "exit"

def description : Command → String
  | help => "Show this help message"
  | mode => "Set mode: eval, check, or ast"
  | type => "Toggle type display (on/off)"
  | exit => "Exit the REPL"

/-- The commands, in the order in which the help lists them. -/
def all : List Command := [help, mode, type, exit]

def ofName? (word : String) : Option Command :=
  all.find? fun command => command.name = word

/-- The width of the column of names in the help. -/
def nameWidth : Nat := 12

def helpLine (command : Command) : String :=
  let padding := List.replicate (nameWidth - command.name.length) ' '
  "  :" ++ command.name ++ String.ofList padding ++ " " ++ command.description

end Command

def helpLines : List String :=
  ["Commands:"] ++ Command.all.map Command.helpLine ++
    ["Modes:",
      "  eval       Check, evaluate and show the result (default)",
      "  check      Only show the type",
      "  ast        Show the parsed expression",
      "Examples:",
      "  -(100, 200)",
      "  let x = 5 in zero?(-(x, 5))",
      "  (proc (x: int) -(x, 1) 10)",
      "  letrec int double(n: int) if zero?(n) then 0 else -((double -(n, 1)), -(2)) in (double 4)"]

/-- The name and the arguments of a command line, given without its colon. The first space divides
them. -/
def splitCommand (cs : List Char) : String × String :=
  (String.ofList (cs.takeWhile (· != ' ')), String.ofList ((cs.dropWhile (· != ' ')).drop 1))

/-- The text with ASCII capitals made small. -/
def toLower (s : String) : String :=
  String.ofList (s.toList.map Char.toLower)

def runCommand (state : State) (command : Command) (args : String) : Reply :=
  match command with
  | .help => ⟨true, helpLines, state⟩
  | .mode =>
    match Mode.ofWord? (Text.trim args) with
    | some mode => ⟨true, ["Mode set to: " ++ mode.render], { state with mode := mode }⟩
    | none => ⟨true, ["Valid modes: " ++ ", ".intercalate (Mode.all.map Mode.render)], state⟩
  | .type =>
    let word := toLower (Text.trim args)
    let showType := if word = "on" then true else if word = "off" then false else !state.showType
    ⟨true, ["Type display: " ++ if showType then "on" else "off"], { state with showType := showType }⟩
  | .exit => ⟨false, [], state⟩

/-! ## Programs -/

/-- The lines for a program, according to the mode. -/
def runProgram (fuel : Nat) (depth : Option Nat) (state : State) (source : String) :
    Option (List String) :=
  match state.mode with
  | .eval =>
    (runSource fuel ⟨none, depth⟩ [] source).map fun
      | .ok outcome =>
        outcome.value.render :: if state.showType then ["  : " ++ outcome.type.render] else []
      | .error failure => [failure.report]
  | .check =>
    match Expr.ofSource source with
    | .error e => some [(Failure.source e).report]
    | .ok e =>
      match e.typeIn .empty with
      | .ok type => some [type.render]
      | .error error => some [(Failure.typing error).report]
  | .ast =>
    match Expr.ofSource source with
    | .ok e => some [e.render]
    | .error e => some [(Failure.source e).report]

def step (fuel : Nat) (depth : Option Nat) (state : State) (line : String) : Option Reply :=
  match Text.trimList line.toList with
  | [] => some ⟨true, [], state⟩
  | ':' :: cs =>
    let (name, args) := splitCommand cs
    match Command.ofName? name with
    | some command => some (runCommand state command args)
    | none =>
      let answer := "Unknown command: :" ++ name ++ ". Type :help for available commands."
      some ⟨true, [answer], state⟩
  | program =>
    (runProgram fuel depth state (String.ofList program)).map fun lines => ⟨true, lines, state⟩

/-- The replies to some lines in order, also to those behind the end of the session. -/
def replies (fuel : Nat) (depth : Option Nat) : State → List String → Option (List Reply)
  | _, [] => some []
  | state, line :: lines => do
    let reply ← step fuel depth state line
    let rest ← replies fuel depth reply.state lines
    return reply :: rest

end TypedLet.Session
