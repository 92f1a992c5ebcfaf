import TypedLet.Expr
import TypedLet.Scope
import TypedLet.Typing.Error

/-!
# Types of expressions

Every binder is annotated, so an expression has at most one type, and it follows from the types of the
parts. The parts are looked at from left to right, and the first broken rule is the error. A rule that
compares two parts is applied when both have a type; only the rule that a called expression is a
procedure comes before the argument is looked at. The name of a recursive procedure is bound in its
body and in the last expression, its parameter in its body alone.
-/

namespace TypedLet

/-- What the names in an expression have as types. -/
abbrev TyScope : Type := Scope Ty Empty

def TyScope.type? (scope : TyScope) (name : String) : Option Ty :=
  match scope.lookup name with
  | some (.plain type) => some type
  | none => none

namespace TyScope

@[simp] theorem type?_empty (x : String) : type? .empty x = none := rfl

@[simp] theorem type?_extend_self (scope : TyScope) (x : String) (t : Ty) :
    type? (scope.extend x t) x = some t := by
  simp [type?]

theorem type?_extend_of_ne (scope : TyScope) {n x : String} (t : Ty) (h : n ≠ x) :
    type? (scope.extend n t) x = type? scope x := by
  simp [type?, Scope.lookup_extend_of_ne scope t h]

end TyScope

/-- Fails unless the type is the one that the place calls for. -/
def TypedPlace.check (place : TypedPlace) (actual : Ty) : Except TypeError Unit :=
  if actual = place.wanted then .ok () else .error (.wrongType place actual)

/-- The type of an expression, or the first rule that is broken. -/
def Expr.typeIn (scope : TyScope) : Expr → Except TypeError Ty
  | number _ => .ok .int
  | bool _ => .ok .bool
  | negate operand => do
    TypedPlace.negated.check (← operand.typeIn scope)
    return .int
  | subtract left right => do
    TypedPlace.minuend.check (← left.typeIn scope)
    TypedPlace.subtrahend.check (← right.typeIn scope)
    return .int
  | isZero operand => do
    TypedPlace.zeroTested.check (← operand.typeIn scope)
    return .bool
  | ite guard thenBranch elseBranch => do
    TypedPlace.ifGuard.check (← guard.typeIn scope)
    let thenType ← thenBranch.typeIn scope
    let elseType ← elseBranch.typeIn scope
    if thenType = elseType then .ok thenType else .error (.branches thenType elseType)
  | identifier name =>
    match scope.type? name with
    | some type => .ok type
    | none => .error (.unbound name)
  | letIn name init body => do
    let initType ← init.typeIn scope
    body.typeIn (scope.extend name initType)
  | proc param paramType body => do
    let bodyType ← body.typeIn (scope.extend param paramType)
    return .arrow paramType bodyType
  | apply fn arg => do
    match ← fn.typeIn scope with
    | .arrow domain codomain =>
      let argType ← arg.typeIn scope
      if domain = argType then .ok codomain else .error (.argument domain argType)
    | other => .error (.notProcedure other)
  | letrec returnType name param paramType body letBody => do
    let inner := scope.extend name (.arrow paramType returnType)
    let bodyType ← body.typeIn (inner.extend param paramType)
    if bodyType = returnType then letBody.typeIn inner
    else .error (.result name returnType bodyType)
  | assert guard body _ => do
    TypedPlace.assertGuard.check (← guard.typeIn scope)
    body.typeIn scope

end TypedLet
