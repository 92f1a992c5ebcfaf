import TypedLet.Ty

/-!
# Expressions

Every procedure takes one parameter and annotates its type, so the type of an expression follows from
its parts. A number literal keeps its text, and whether that fits in 64 bits is decided when the
literal is evaluated. An `assert` that was read from a text keeps the line of its keyword.
-/

namespace TypedLet

inductive Expr where
  | number (text : String)
  | bool (value : Bool)
  | negate (operand : Expr)
  | subtract (left right : Expr)
  | isZero (operand : Expr)
  | ite (guard thenBranch elseBranch : Expr)
  | identifier (name : String)
  | letIn (name : String) (init body : Expr)
  | proc (param : String) (paramType : Ty) (body : Expr)
  | apply (fn arg : Expr)
  /-- A recursive procedure: its name is visible in its own body and in the last expression. -/
  | letrec (returnType : Ty) (name param : String) (paramType : Ty) (body letBody : Expr)
  | assert (guard body : Expr) (line : Option Int)
  deriving DecidableEq, Repr, Inhabited

end TypedLet
