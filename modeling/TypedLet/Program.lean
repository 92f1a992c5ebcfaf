import TypedLet.Evaluation
import TypedLet.Expr.Source
import TypedLet.Typing

/-!
# Running a program

A program is read, then its type is found, then it is evaluated. A failure ends the whole, so nothing
is evaluated that has no type. Names can be given to a program from outside, each with a type and a
value; nothing checks that the two agree.
-/

namespace TypedLet

/-- A name that is bound before a program starts. -/
structure Given where
  name : String
  type : Ty
  value : Value

namespace Given

/-- The types of the given names, the last one newest. -/
def tyScope (given : List Given) : TyScope :=
  .ofList (given.map fun g => (g.name, g.type))

/-- The values of the given names, the last one newest. -/
def valueScope (given : List Given) : ValueScope :=
  .ofList (given.map fun g => (g.name, g.value))

end Given

structure Outcome where
  value : Value
  type : Ty

/-- Why a program gives nothing. -/
inductive Failure where
  | source (e : SourceError)
  | typing (e : TypeError)
  | runtime (e : RuntimeError)

def Failure.message : Failure → String
  | source e => e.message
  | typing e => e.message
  | runtime e => e.message

/-- Finds the type of an expression and then its value. -/
def Expr.run (fuel : Nat) (limits : Limits) (given : List Given) (e : Expr) :
    Option (Except Failure Outcome) :=
  match e.typeIn (Given.tyScope given) with
  | .error error => some (.error (.typing error))
  | .ok type =>
    (evaluate fuel limits (Given.valueScope given) e 0).map fun run =>
      match run.result with
      | .ok value => .ok ⟨value, type⟩
      | .error error => .error (.runtime error)

/-- Reads a program and runs it. -/
def runSource (fuel : Nat) (limits : Limits) (given : List Given) (source : String) :
    Option (Except Failure Outcome) :=
  match Expr.ofSource source with
  | .error e => some (.error (.source e))
  | .ok e => e.run fuel limits given

end TypedLet
