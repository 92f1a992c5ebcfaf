import TypedLet.Program

/-!
# Reports of failures

A failure is reported on one line: the stage that failed, and then the message.
-/

namespace TypedLet

inductive Stage where
  | reading
  | checking
  | running
  /-- Any other stage that knows what went wrong. -/
  | other
  /-- A failure that nothing is known about. -/
  | unknown
  deriving DecidableEq, Repr

namespace Stage

def label : Stage → String
  | reading => "Syntax error: "
  | checking => "Type error: "
  | running => "Runtime error: "
  | other => "Error: "
  | unknown => "Unknown error: "

def report (stage : Stage) (message : String) : String :=
  stage.label ++ message

end Stage

/-- The stage that found the failure. A refused number is no error of the grammar. -/
def Failure.stage : Failure → Stage
  | source (.parse (.refused _)) => .other
  | source _ => .reading
  | typing _ => .checking
  | runtime _ => .running

def Failure.report (failure : Failure) : String :=
  failure.stage.report failure.message

end TypedLet
