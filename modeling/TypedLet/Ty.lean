/-!
# Types

A type is `int`, `bool`, or the type of procedures from one type to another. There is no
subtyping: two types agree exactly when they are the same tree. The text of a type is the one a
program writes for it, with each arrow in brackets.
-/

namespace TypedLet

inductive Ty where
  | int
  | bool
  | arrow (domain codomain : Ty)
  deriving Repr, Inhabited

namespace Ty

/-- Whether two types have the same shape, arrow by arrow. -/
def sameShape : Ty → Ty → Bool
  | int, int => true
  | bool, bool => true
  | arrow a b, arrow c d => a.sameShape c && b.sameShape d
  | _, _ => false

theorem sameShape_iff {a b : Ty} : a.sameShape b = true ↔ a = b := by
  induction a generalizing b with
  | int | bool => cases b <;> simp [sameShape]
  | arrow a₁ a₂ ih₁ ih₂ => cases b <;> simp [sameShape, ih₁, ih₂]

/-- Types are told apart by their shapes. -/
instance : DecidableEq Ty := fun a b => decidable_of_iff (a.sameShape b = true) sameShape_iff

/-- The text of a type, as a program writes it. -/
def render : Ty → String
  | int => "int"
  | bool => "bool"
  | arrow domain codomain => "(" ++ domain.render ++ " -> " ++ codomain.render ++ ")"

@[simp] theorem render_int : render int = "int" := rfl

@[simp] theorem render_bool : render bool = "bool" := rfl

@[simp] theorem render_arrow (a b : Ty) :
    render (arrow a b) = "(" ++ a.render ++ " -> " ++ b.render ++ ")" := rfl

end Ty

end TypedLet
