import TypedLet.Expr

/-!
# The text of an expression

An expression is written on one line, with one blank wherever two words meet. The line of an `assert`
is not written.
-/

namespace TypedLet.Expr

/-- The text of an expression, as a program writes it. -/
def render : Expr → String
  | number text => text
  | bool value => if value then "true" else "false"
  | negate operand => "-(" ++ operand.render ++ ")"
  | subtract left right => "-(" ++ left.render ++ ", " ++ right.render ++ ")"
  | isZero operand => "zero?(" ++ operand.render ++ ")"
  | ite guard thenBranch elseBranch =>
    "if " ++ guard.render ++ " then " ++ thenBranch.render ++ " else " ++ elseBranch.render
  | identifier name => name
  | letIn name init body => "let " ++ name ++ " = " ++ init.render ++ " in " ++ body.render
  | proc param paramType body =>
    "proc (" ++ param ++ ": " ++ paramType.render ++ ") " ++ body.render
  | apply fn arg => "(" ++ fn.render ++ " " ++ arg.render ++ ")"
  | letrec returnType name param paramType body letBody =>
    "letrec " ++ returnType.render ++ " " ++ name ++ "(" ++ param ++ ": " ++ paramType.render ++ ") " ++
      body.render ++ " in " ++ letBody.render
  | assert guard body _ => "assert " ++ guard.render ++ " then " ++ body.render

@[simp] theorem render_number (text : String) : render (number text) = text := rfl

@[simp] theorem render_bool (value : Bool) :
    render (bool value) = if value then "true" else "false" := rfl

@[simp] theorem render_negate (operand : Expr) :
    render (negate operand) = "-(" ++ operand.render ++ ")" := rfl

@[simp] theorem render_subtract (left right : Expr) :
    render (subtract left right) = "-(" ++ left.render ++ ", " ++ right.render ++ ")" := rfl

@[simp] theorem render_isZero (operand : Expr) :
    render (isZero operand) = "zero?(" ++ operand.render ++ ")" := rfl

@[simp] theorem render_ite (guard thenBranch elseBranch : Expr) :
    render (ite guard thenBranch elseBranch) =
      "if " ++ guard.render ++ " then " ++ thenBranch.render ++ " else " ++ elseBranch.render := rfl

@[simp] theorem render_identifier (name : String) : render (identifier name) = name := rfl

@[simp] theorem render_letIn (name : String) (init body : Expr) :
    render (letIn name init body) =
      "let " ++ name ++ " = " ++ init.render ++ " in " ++ body.render := rfl

@[simp] theorem render_proc (param : String) (paramType : Ty) (body : Expr) :
    render (proc param paramType body) =
      "proc (" ++ param ++ ": " ++ paramType.render ++ ") " ++ body.render := rfl

@[simp] theorem render_apply (fn arg : Expr) :
    render (apply fn arg) = "(" ++ fn.render ++ " " ++ arg.render ++ ")" := rfl

@[simp] theorem render_letrec (returnType : Ty) (name param : String) (paramType : Ty)
    (body letBody : Expr) :
    render (letrec returnType name param paramType body letBody) =
      "letrec " ++ returnType.render ++ " " ++ name ++ "(" ++ param ++ ": " ++ paramType.render ++
        ") " ++ body.render ++ " in " ++ letBody.render := rfl

@[simp] theorem render_assert (guard body : Expr) (line : Option Int) :
    render (assert guard body line) = "assert " ++ guard.render ++ " then " ++ body.render := rfl

end TypedLet.Expr
