import TypedLet.Typing

/-!
# Annotations

The types at the binders of an expression and the lines of its `assert`s are annotations. Its type
depends on the types among them, and on none of the lines.
-/

namespace TypedLet

namespace Expr

/-- The expression with other annotations: `f` replaces the types, and `g` the lines of `assert`s. -/
def mapAnnotations (f : Ty → Ty) (g : Option Int → Option Int) : Expr → Expr
  | number text => number text
  | bool b => bool b
  | negate e => negate (e.mapAnnotations f g)
  | subtract e₁ e₂ => subtract (e₁.mapAnnotations f g) (e₂.mapAnnotations f g)
  | isZero e => isZero (e.mapAnnotations f g)
  | ite e e₁ e₂ => ite (e.mapAnnotations f g) (e₁.mapAnnotations f g) (e₂.mapAnnotations f g)
  | identifier x => identifier x
  | letIn x e₁ e₂ => letIn x (e₁.mapAnnotations f g) (e₂.mapAnnotations f g)
  | proc x t e => proc x (f t) (e.mapAnnotations f g)
  | apply e₁ e₂ => apply (e₁.mapAnnotations f g) (e₂.mapAnnotations f g)
  | letrec t n x s e₁ e₂ => letrec (f t) n x (f s) (e₁.mapAnnotations f g) (e₂.mapAnnotations f g)
  | assert e₁ e₂ line => assert (e₁.mapAnnotations f g) (e₂.mapAnnotations f g) (g line)

theorem typeIn_mapAnnotations_id (g : Option Int → Option Int) (e : Expr) (G : TyScope) :
    (e.mapAnnotations id g).typeIn G = e.typeIn G := by
  induction e generalizing G with
  | number | bool | identifier => rfl
  | _ => simp only [mapAnnotations, typeIn, id, *]

theorem typeIn_eq_of_mapAnnotations_id {g : Option Int → Option Int} {e e' : Expr}
    (h : e.mapAnnotations id g = e'.mapAnnotations id g) (G : TyScope) : e.typeIn G = e'.typeIn G := by
  rw [← typeIn_mapAnnotations_id g e, h, typeIn_mapAnnotations_id]

end Expr

end TypedLet
