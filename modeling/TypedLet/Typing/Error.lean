import TypedLet.Ty

/-!
# Type errors

An error says which rule is broken and by which types. Several causes share a kind, which tells how
the program is wrong without telling where.
-/

namespace TypedLet

/-- A place where a rule calls for one particular type. -/
inductive TypedPlace where
  | negated
  | minuend
  | subtrahend
  | zeroTested
  | ifGuard
  | assertGuard
  deriving DecidableEq, Repr

namespace TypedPlace

def wanted : TypedPlace → Ty
  | negated | minuend | subtrahend | zeroTested => .int
  | ifGuard | assertGuard => .bool

def render : TypedPlace → String
  | negated => "-() operand"
  | minuend => "-() first argument"
  | subtrahend => "-() second argument"
  | zeroTested => "`zero?`"
  | ifGuard => "`if` guard"
  | assertGuard => "assert guard"

end TypedPlace

/-- Why an expression has no type. -/
inductive TypeError where
  | wrongType (place : TypedPlace) (actual : Ty)
  | branches (thenType elseType : Ty)
  | argument (domain actual : Ty)
  | result (name : String) (declared actual : Ty)
  | unbound (name : String)
  | notProcedure (actual : Ty)
  deriving DecidableEq, Repr

namespace TypeError

inductive Kind where
  | mismatch
  | unbound
  | notProcedure
  deriving DecidableEq, Repr

def kind : TypeError → Kind
  | wrongType .. | branches .. | argument .. | result .. => .mismatch
  | unbound _ => .unbound
  | notProcedure _ => .notProcedure

/-- A piece of program text inside a message. -/
def quote (text : String) : String := "`" ++ text ++ "`"

def message : TypeError → String
  | wrongType place actual =>
    place.render ++ " expects " ++ quote place.wanted.render ++ " but got " ++ quote actual.render
  | branches thenType elseType =>
    "`if` branches expect matching types but got " ++ quote thenType.render ++ " and " ++
      quote elseType.render
  | argument domain actual =>
    "call expects " ++ quote domain.render ++ " argument but got " ++ quote actual.render
  | result name declared actual =>
    quote name ++ " expects result of type " ++ quote declared.render ++ " but got " ++
      quote actual.render
  | unbound name => "undefined name " ++ quote name
  | notProcedure actual => "call expects proc but got " ++ quote actual.render

end TypeError

end TypedLet
