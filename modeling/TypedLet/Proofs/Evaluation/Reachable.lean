import TypedLet.Proofs.Evaluation.Invariant

/-!
# Closures that a scope leads to

A run enters the bodies of closures, and these are no parts of the expression it started with. They come
from the closures that the scope leads to, by names and through the scopes of closures found on the way
(`ValueScope.Reaches`), or they are parts of the expression. So a property of expressions that passes to
their parts, and holds of the expression and of every body that the scope leads to, still holds of every
body that the result leads to (`BigStep.bodies`).
-/

namespace TypedLet

/-! ## Reach -/

/-- The scope leads to the value: a name stands for it, or the scope of a closure that a name stands for
leads to it. -/
inductive ValueScope.Reaches : ValueScope → Value → Prop where
  | here {scope : ValueScope} {x v} (hx : scope.value? x = some v) : Reaches scope v
  | inside {scope : ValueScope} {x code home v} (hx : scope.value? x = some (.closure code home))
      (h : Reaches home v) : Reaches scope v

/-- Every closure that the scope leads to has a body with the property. -/
def ValueScope.Bodies (p : Expr → Prop) (scope : ValueScope) : Prop :=
  ∀ code home, scope.Reaches (.closure code home) → p code.body

/-- The value is no closure, or its body and all that its scope leads to have the property. -/
def Value.Bodies (p : Expr → Prop) : Value → Prop
  | .closure code home => p code.body ∧ ValueScope.Bodies p home
  | _ => True

namespace ValueScope

variable {p : Expr → Prop} {scope : ValueScope}

theorem Bodies.value? (h : scope.Bodies p) {x : String} {v : Value} (hx : scope.value? x = some v) :
    v.Bodies p := by
  cases v with
  | closure code home =>
      exact ⟨h code home (.here hx), fun _ _ hreach => h _ _ (.inside hx hreach)⟩
  | int n => trivial
  | bool b => trivial

theorem Bodies.of_value? (h : ∀ x v, scope.value? x = some v → v.Bodies p) : scope.Bodies p := by
  intro code home hreach
  cases hreach with
  | here hx => exact (h _ _ hx).1
  | inside hx hin => exact (h _ _ hx).2 _ _ hin

theorem bodies_empty : ValueScope.Bodies p .empty :=
  .of_value? fun x v hx => by simp at hx

theorem Bodies.extend (h : scope.Bodies p) {x : String} {v : Value} (hv : v.Bodies p) :
    ValueScope.Bodies p (scope.extend x v) := by
  refine .of_value? fun y w hy => ?_
  by_cases hxy : x = y
  · subst hxy
    rw [value?_extend_self, Option.some.injEq] at hy
    subst hy
    exact hv
  · rw [value?_extend_of_ne scope v hxy] at hy
    exact h.value? hy

/-- A recursive procedure leads to itself and to what the scope led to before. -/
theorem Bodies.extendRec (h : scope.Bodies p) {f : String} {code : Procedure} (hcode : p code.body) :
    ValueScope.Bodies p (scope.extendRec f code) := by
  intro code' home hreach
  generalize hs : scope.extendRec f code = inner at hreach
  generalize hv : Value.closure code' home = v at hreach
  induction hreach with
  | @here _ x v hx =>
      subst hs hv
      by_cases hfx : f = x
      · subst hfx
        rw [value?_extendRec_self, Option.some.injEq, Value.closure.injEq] at hx
        rw [← hx.1]
        exact hcode
      · rw [value?_extendRec_of_ne scope code hfx] at hx
        exact (h.value? hx).1
  | @inside _ x code₁ home₁ v hx hin ih =>
      subst hs
      by_cases hfx : f = x
      · subst hfx
        rw [value?_extendRec_self, Option.some.injEq, Value.closure.injEq] at hx
        exact ih hx.2 hv
      · subst hv
        rw [value?_extendRec_of_ne scope code hfx] at hx
        exact (h.value? hx).2 _ _ hin

end ValueScope

/-! ## Runs keep to the bodies they know -/

/-- That all bodies have a property is kept by every evaluation, if the property passes to parts. -/
theorem invariant_bodies {p : Expr → Prop} (hp : Expr.Hereditary p) :
    Invariant p (ValueScope.Bodies p) (Value.Bodies p) where
  hereditary := hp
  int := fun _ => trivial
  bool := fun _ => trivial
  closure := Iff.rfl
  value? := fun hscope hx => hscope.value? hx
  extend := fun hscope hv _ => hscope.extend hv
  extendRec := fun hscope hcode _ => hscope.extendRec hcode

/-- The result of a run leads only to bodies with a property that the expression and the bodies before
had, if the property passes to parts. -/
theorem BigStep.bodies {p : Expr → Prop} (hp : Expr.Hereditary p) {scope : ValueScope} {e : Expr}
    {r : Except RuntimeError Value} {n : Nat} (h : BigStep scope e r n) (he : p e)
    (hscope : scope.Bodies p) : ∀ v, r = .ok v → v.Bodies p := by
  rintro v rfl
  have hrun : evalFrom ⟨none, none⟩ n 0 0 scope e = some ⟨.ok v, 0 + n⟩ :=
    h.evalFrom_eq (Nat.le_refl n)
  exact (invariant_bodies hp).evalFrom hrun he hscope

end TypedLet
