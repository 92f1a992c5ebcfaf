import TypedLet.Scope.History
import TypedLet.Main
import TypedLet.Proofs.Evaluation.Arithmetic
import TypedLet.Proofs.Evaluation.Erasure
import TypedLet.Proofs.Evaluation.FreeNames
import TypedLet.Proofs.Evaluation.Range
import TypedLet.Proofs.Evaluation.Renaming
import TypedLet.Proofs.Evaluation.Series
import TypedLet.Proofs.Evaluation.TailCalls
import TypedLet.Proofs.Program.Failures
import TypedLet.Proofs.Program.Layout
import TypedLet.Proofs.Expr.Reprinting
import TypedLet.Proofs.Token.Splitting
import TypedLet.Proofs.Typing.Termination
import TypedLet.Proofs.Typing.Coverage
import TypedLet.Proofs.Scope.Heap
import TypedLet.Proofs.Command.Outcome
import TypedLet.Proofs.Expr.Kinds
import TypedLet.Proofs.Expr.ViablePrefix
import TypedLet.Proofs.Session.Independence
import TypedLet.Proofs.Expr.Resumption
import TypedLet.Proofs.Token.Resumption
import TypedLet.Proofs.Command.Groups
import TypedLet.Proofs.Program.Literals
