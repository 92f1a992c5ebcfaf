import TypedLet.Expr.Parser
import TypedLet.Token.Lexer

/-!
# Programs as text

A text is a program when its tokens are one expression. A stray unit anywhere in the text comes before
every error of the grammar, since the tokens are read first.
-/

namespace TypedLet

inductive SourceError where
  | stray (e : StrayUnit)
  | parse (e : ParseError)
  deriving DecidableEq, Repr

def SourceError.message : SourceError → String
  | stray e => e.message
  | parse e => e.message

/-- The expression that a program text stands for. -/
def Expr.ofSource (source : String) : Except SourceError Expr :=
  match tokenize source with
  | .error e => .error (.stray e)
  | .ok tokens =>
    match (Parser.program tokens).1 with
    | .error e => .error (.parse e)
    | .ok e => .ok e

end TypedLet
