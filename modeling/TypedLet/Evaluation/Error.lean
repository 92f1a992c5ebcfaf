import TypedLet.Decimal
import TypedLet.Value

/-!
# Errors of an evaluation

A literal that is too large, a failed assertion and a limit can end the evaluation of any program. The
other causes arise only where no type was checked.
-/

namespace TypedLet

inductive IntegerPlace where
  | arithmetic
  | zeroTest
  deriving DecidableEq, Repr

def IntegerPlace.render : IntegerPlace → String
  | arithmetic => "-()"
  | zeroTest => "zero?()"

inductive GuardPlace where
  | ofIf
  | ofAssert
  deriving DecidableEq, Repr

def GuardPlace.render : GuardPlace → String
  | ofIf => "if"
  | ofAssert => "assert"

/-- Why an evaluation ends without a value. -/
inductive RuntimeError where
  | overflow (literal : String)
  | noNumeral (literal : String)
  | notInteger (place : IntegerPlace) (got : Value)
  | notBoolean (place : GuardPlace) (got : Value)
  | unbound (name : String)
  | notProcedure (got : Value)
  | assertionFailed (line : Option Int)
  | stepLimit (limit : Decimal)
  | depthLimit

namespace RuntimeError

inductive Kind where
  | overflow
  | assertionFailed
  | unbound
  | notProcedure
  | typeMismatch
  | stepLimit
  | depthLimit
  deriving DecidableEq, Repr

def kind : RuntimeError → Kind
  | overflow _ => .overflow
  | noNumeral _ | notInteger .. | notBoolean .. => .typeMismatch
  | unbound _ => .unbound
  | notProcedure _ => .notProcedure
  | assertionFailed _ => .assertionFailed
  | stepLimit _ => .stepLimit
  | depthLimit => .depthLimit

def message : RuntimeError → String
  | overflow literal => "integer literal " ++ literal ++ " does not fit in 64 bits"
  | noNumeral literal => "'" ++ literal ++ "' is not an integer literal"
  | notInteger place got => place.render ++ " requires an integer but got " ++ got.render
  | notBoolean place got => place.render ++ " requires a boolean but got " ++ got.render
  | unbound name => "unbound variable `" ++ name ++ "`"
  | notProcedure got => "call expects proc but got " ++ got.render
  | assertionFailed none => "assertion failed"
  | assertionFailed (some line) => "assertion failed at line " ++ toString line
  | stepLimit limit => "evaluation exceeded " ++ limit.render ++ " steps"
  | depthLimit => "evaluation nested too deeply for the call stack"

end RuntimeError

/-! ## What operations ask of their operands -/

/-- What an operation asks of a value: the part that it works on, and the error of a value without
such a part. -/
structure Demand (α : Type) where
  part? : Value → Option α
  refusal : Value → RuntimeError

namespace Demand

def integer (place : IntegerPlace) : Demand Int := ⟨Value.int?, .notInteger place⟩

def guard (place : GuardPlace) : Demand Bool := ⟨Value.bool?, .notBoolean place⟩

def procedure : Demand (Procedure × ValueScope) := ⟨Value.closure?, .notProcedure⟩

end Demand

end TypedLet
