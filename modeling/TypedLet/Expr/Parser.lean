import TypedLet.Expr
import TypedLet.Expr.Parser.Error

/-!
# From tokens to expressions

The grammar is

    program = expr
    expr    = NUMBER | true | false | NAME
            | - ( expr ) | - ( expr , expr ) | zero? ( expr )
            | if expr then expr else expr
            | let NAME = expr in expr
            | proc ( NAME : type ) expr
            | ( expr expr )
            | letrec type NAME ( NAME : type ) expr in expr
            | assert expr then expr
    type    = int | bool | ( type -> type )

and each form starts with a token of its own, so the front token decides which form is read. A parser
takes a stream of tokens and leaves the rest of it, also where it fails: what has been read up to the
failure stays read, and the token that fails the grammar stays at the front.
-/

namespace TypedLet

/-! ## Parsers -/

/-- A parser turns a stream into a result and the rest of the stream. -/
def Parser (α : Type) : Type := TokenStream → Except ParseError α × TokenStream

namespace Parser

variable {α β : Type}

def pure (a : α) : Parser α := fun s => (.ok a, s)

/-- Reads one thing after the other; a failure ends the reading. -/
def bind (p : Parser α) (f : α → Parser β) : Parser β := fun s =>
  match p s with
  | (.ok a, rest) => f a rest
  | (.error e, rest) => (.error e, rest)

instance : Monad Parser where
  pure := pure
  bind := bind

def fail (e : ParseError) : Parser α := fun s => (.error e, s)

def peek : Parser Token := fun s => (.ok s.head, s)

def skip : Parser Unit := fun s => (.ok (), s.tail)

/-- Reads the token that a place calls for. -/
def expect (place : Expectation) : Parser Token := fun s =>
  if s.head.kind = place.kind then (.ok s.head, s.tail) else (.error (.expected place s.head), s)

theorem pure_apply (a : α) (s : TokenStream) : (Pure.pure a : Parser α) s = (.ok a, s) := rfl

theorem bind_apply (p : Parser α) (f : α → Parser β) (s : TokenStream) :
    (p >>= f) s = match p s with
      | (.ok a, rest) => f a rest
      | (.error e, rest) => (.error e, rest) := rfl

theorem fail_apply (e : ParseError) (s : TokenStream) : (fail e : Parser α) s = (.error e, s) := rfl

theorem peek_apply (s : TokenStream) : peek s = (.ok s.head, s) := rfl

theorem skip_apply (s : TokenStream) : skip s = (.ok (), s.tail) := rfl

theorem expect_apply (place : Expectation) (s : TokenStream) :
    expect place s = if s.head.kind = place.kind then (.ok s.head, s.tail)
      else (.error (.expected place s.head), s) := rfl

/-! ## The grammar -/

/-- Reads a type, and the types inside it with `inner`. -/
def typeForm (inner : Parser Ty) : Parser Ty := do
  let front ← peek
  match front.kind with
  | .kwInt => do
    skip
    return .int
  | .kwBool => do
    skip
    return .bool
  | .openParen => do
    skip
    let domain ← inner
    let _ ← expect .arrowInType
    let codomain ← inner
    let _ ← expect .closeAfterType
    return .arrow domain codomain
  | _ => fail (.noType front)

/-- Reads a type that nests at most `fuel` deep. -/
def type : Nat → Parser Ty
  | 0 => do fail (.noType (← peek))
  | fuel + 1 => typeForm (type fuel)

def number (text : String) : Parser Expr :=
  match Numeral.literal (.text text) with
  | .ok text => pure (.number text)
  | .error e => fail (.refused e)

/-- Reads an expression, the types in it with `type` and the expressions inside it with `inner`. -/
def exprForm (type : Parser Ty) (inner : Parser Expr) : Parser Expr := do
  let front ← peek
  match front.kind with
  | .number => do
    skip
    number front.text
  | .kwTrue => do
    skip
    return .bool true
  | .kwFalse => do
    skip
    return .bool false
  | .name => do
    skip
    return .identifier front.text
  | .minus => do
    skip
    let _ ← expect .openAfterMinus
    let left ← inner
    if (← peek).kind = .comma then do
      skip
      let right ← inner
      let _ ← expect .closeAfterSubtrahend
      return .subtract left right
    else do
      let _ ← expect .closeAfterMinuend
      return .negate left
  | .kwZero => do
    skip
    let _ ← expect .openAfterZero
    let operand ← inner
    let _ ← expect .closeAfterZero
    return .isZero operand
  | .kwIf => do
    skip
    let guard ← inner
    let _ ← expect .thenAfterIf
    let thenBranch ← inner
    let _ ← expect .elseAfterThen
    let elseBranch ← inner
    return .ite guard thenBranch elseBranch
  | .kwLet => do
    skip
    let name ← expect .nameAfterLet
    let _ ← expect .equalsAfterName
    let init ← inner
    let _ ← expect .inAfterInit
    let body ← inner
    return .letIn name.text init body
  | .kwProc => do
    skip
    let _ ← expect .openAfterProc
    let param ← expect .parameterName
    let _ ← expect .colonAfterParameter
    let paramType ← type
    let _ ← expect .closeAfterParameter
    let body ← inner
    return .proc param.text paramType body
  | .openParen => do
    skip
    let fn ← inner
    let arg ← inner
    let _ ← expect .closeAfterArgument
    return .apply fn arg
  | .kwLetrec => do
    skip
    let returnType ← type
    let name ← expect .procedureName
    let _ ← expect .openAfterProcedureName
    let param ← expect .parameterName
    let _ ← expect .colonAfterParameter
    let paramType ← type
    let _ ← expect .closeAfterParameter
    let body ← inner
    let _ ← expect .inAfterProcedure
    let letBody ← inner
    return .letrec returnType name.text param.text paramType body letBody
  | .kwAssert => do
    skip
    let guard ← inner
    let _ ← expect .thenAfterAssert
    let body ← inner
    return .assert guard body (some front.position.line)
  | _ => fail (.noExpression front)

/-- Reads an expression that nests at most `fuel` deep. -/
def expr : Nat → Parser Expr
  | 0 => do fail (.noExpression (← peek))
  | fuel + 1 => exprForm (type fuel) (expr fuel)

/-- Reads an expression and then the end of the input. Each form starts with a token of its own, so
the number of tokens bounds the nesting. -/
def program : Parser Expr := fun s => (do
  let e ← expr (s.pending.length + 1)
  let front ← peek
  if front.kind = .finish then return e else fail (.trailing front) : Parser Expr) s

end Parser

end TypedLet
