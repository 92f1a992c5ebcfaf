import TypedLet.Numeral
import TypedLet.Token

/-!
# Errors of the grammar

An error of the grammar names the first token that cannot stand where it stands, and what was called
for in its place. A token of the right kind can still hold a text that its kind does not allow; only
number tokens can.
-/

namespace TypedLet

/-- A place inside a form where only one kind of token can stand. -/
inductive Expectation where
  | openAfterMinus
  | closeAfterSubtrahend
  | closeAfterMinuend
  | openAfterZero
  | closeAfterZero
  | thenAfterIf
  | elseAfterThen
  | nameAfterLet
  | equalsAfterName
  | inAfterInit
  | openAfterProc
  | parameterName
  | colonAfterParameter
  | closeAfterParameter
  | closeAfterArgument
  | procedureName
  | openAfterProcedureName
  | inAfterProcedure
  | thenAfterAssert
  | arrowInType
  | closeAfterType
  deriving DecidableEq, Repr

namespace Expectation

def kind : Expectation → Token.Kind
  | openAfterMinus | openAfterZero | openAfterProc | openAfterProcedureName => .openParen
  | closeAfterSubtrahend | closeAfterMinuend | closeAfterZero | closeAfterParameter
  | closeAfterArgument | closeAfterType => .closeParen
  | thenAfterIf | thenAfterAssert => .kwThen
  | elseAfterThen => .kwElse
  | nameAfterLet | parameterName | procedureName => .name
  | equalsAfterName => .equals
  | inAfterInit | inAfterProcedure => .kwIn
  | colonAfterParameter => .colon
  | arrowInType => .arrow

def render : Expectation → String
  | openAfterMinus => "Expected '(' after '-'"
  | closeAfterSubtrahend => "Expected ')' after second argument of '-'"
  | closeAfterMinuend => "Expected ',' or ')' after argument of '-'"
  | openAfterZero => "Expected '(' after 'zero?'"
  | closeAfterZero => "Expected ')' after argument of 'zero?'"
  | thenAfterIf => "Expected 'then' after if condition"
  | elseAfterThen => "Expected 'else' after then branch"
  | nameAfterLet => "Expected identifier after 'let'"
  | equalsAfterName => "Expected '=' after identifier in let binding"
  | inAfterInit => "Expected 'in' after let value"
  | openAfterProc => "Expected '(' after 'proc'"
  | parameterName => "Expected parameter name"
  | colonAfterParameter => "Expected ':' after parameter name"
  | closeAfterParameter => "Expected ')' after parameter type"
  | closeAfterArgument => "Expected ')' after argument"
  | procedureName => "Expected procedure name after return type"
  | openAfterProcedureName => "Expected '(' after procedure name"
  | inAfterProcedure => "Expected 'in' after letrec body"
  | thenAfterAssert => "Expected 'then' after assert condition"
  | arrowInType => "Expected '->' in procedure type"
  | closeAfterType => "Expected ')' after procedure type"

end Expectation

/-- Why tokens are no program. Each cause but the last holds the token that fails the grammar. -/
inductive ParseError where
  | noExpression (found : Token)
  | noType (found : Token)
  | expected (place : Expectation) (found : Token)
  | trailing (found : Token)
  | refused (number : Numeral.Refused)
  deriving DecidableEq, Repr

namespace ParseError

def message : ParseError → String
  | noExpression t =>
    (if t.kind = .finish then "Unexpected end of input" else "Unexpected token " ++ t.describe) ++
      " at " ++ t.position.render
  | noType t => "Expected type at " ++ t.position.render ++ ". Got " ++ t.describe
  | expected place t => place.render ++ " at " ++ t.position.render ++ ". Got " ++ t.describe
  | trailing t => "Unexpected token '" ++ t.text ++ "' at " ++ t.position.render
  | refused number => number.message

end ParseError

end TypedLet
