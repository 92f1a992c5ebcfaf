import TypedLet.Proofs.Evaluation.Bisimilarity
import TypedLet.Proofs.Expr.Annotations

/-!
# Annotations and evaluation

No turn of an evaluation looks at the type that a binder is annotated with, or at the line of an `assert`
but to name it in an error. So expressions that are equal once their annotations are replaced run in
lockstep, in scopes that give them values which are equal in the same sense. How much of the annotations
is replaced is left open: to erase them all is one way, and to forget where a program was written is
another.
-/

namespace TypedLet

/-! ## Values that are equal but for annotations -/

def Procedure.mapAnnotations (f : Ty → Ty) (g : Option Int → Option Int) (code : Procedure) :
    Procedure :=
  ⟨code.param, f code.paramType, code.body.mapAnnotations f g⟩

section Relations

variable (f : Ty → Ty) (g : Option Int → Option Int)

/-- The closures are of procedures that are equal once annotations are replaced, in scopes that give each
name related values. -/
def Procedure.SameUpTo : ClosureRule := fun R code home code' home' =>
  code.mapAnnotations f g = code'.mapAnnotations f g ∧ ValueScope.AlikeAlong R Eq home home'

/-- The values are equal once the annotations in closures are replaced. -/
abbrev Value.SameUpTo : Value → Value → Prop := Bisimilar (Procedure.SameUpTo f g)

/-- The expressions are equal once annotations are replaced, in scopes that give each name values which
are. -/
def Expr.SameUpTo (scope : ValueScope) (e : Expr) (scope' : ValueScope) (e' : Expr) : Prop :=
  e.mapAnnotations f g = e'.mapAnnotations f g ∧
    ValueScope.AlikeAlong (Value.SameUpTo f g) Eq scope scope'

end Relations

/-! ## Lockstep -/

variable {f : Ty → Ty} {g : Option Int → Option Int}

theorem Procedure.mapAnnotations_congr {x : String} {t t' : Ty} {e e' : Expr} (ht : f t = f t')
    (he : e.mapAnnotations f g = e'.mapAnnotations f g) :
    mapAnnotations f g ⟨x, t, e⟩ = mapAnnotations f g ⟨x, t', e'⟩ := by
  simp only [mapAnnotations, ht, he]

theorem Procedure.sameUpTo_monotone : (SameUpTo f g).Monotone := by
  rintro R S hRS code home code' home' ⟨hcode, hhome⟩
  exact ⟨hcode, hhome.mono hRS⟩

theorem Value.SameUpTo.refl (v : Value) : SameUpTo f g v v :=
  Bisimilar.refl (fun _ home => ⟨rfl, .refl (fun _ => rfl) home⟩) v

/-- Behind binders of one name each name corresponds to itself. -/
theorem ValueScope.AlikeAlong.of_bind_eq {R : Value → Value → Prop} {scope scope' : ValueScope}
    {x : String} (h : AlikeAlong R (Correspondence.bind Eq x x) scope scope') :
    AlikeAlong R Eq scope scope' :=
  h.of_imp fun _ _ hy => hy ▸ Correspondence.bind_self fun _ => rfl

theorem ValueScope.AlikeAlong.extendRec_sameUpTo {scope scope' : ValueScope} {n : String}
    {code code' : Procedure} (h : AlikeAlong (Value.SameUpTo f g) Eq scope scope')
    (hcode : code.mapAnnotations f g = code'.mapAnnotations f g) :
    AlikeAlong (Value.SameUpTo f g) Eq (scope.extendRec n code) (scope'.extendRec n code') := by
  refine (h.extendRec ?_).of_bind_eq
  refine Value.Bisimilar.closure Procedure.sameUpTo_monotone ⟨hcode, ?_⟩
  exact ((h.mono fun _ _ => .inl).extendRec (.inr ⟨rfl, rfl⟩)).of_bind_eq

theorem Expr.SameUpTo.alikeBy {β : Type} {seen : RuntimeError → β}
    (hline : ∀ line line', g line = g line' →
      seen (.assertionFailed line) = seen (.assertionFailed line'))
    {scope scope' : ValueScope} {e e' : Expr} (h : SameUpTo f g scope e scope' e') :
    AlikeBy (Value.SameUpTo f g) seen (SameUpTo f g) scope e scope' e' := by
  obtain ⟨he, hscope⟩ := h
  cases e <;> cases e' <;> simp only [mapAnnotations, reduceCtorEq, number.injEq, bool.injEq,
    negate.injEq, subtract.injEq, isZero.injEq, ite.injEq, identifier.injEq, letIn.injEq, proc.injEq,
    apply.injEq, letrec.injEq, assert.injEq] at he
  case number.number =>
      subst he
      exact .number _
  case bool.bool =>
      subst he
      exact .bool _
  case negate.negate => exact .negate ⟨he, hscope⟩
  case subtract.subtract => exact .subtract ⟨he.1, hscope⟩ ⟨he.2, hscope⟩
  case isZero.isZero => exact .isZero ⟨he, hscope⟩
  case ite.ite => exact .ite ⟨he.1, hscope⟩ ⟨he.2.1, hscope⟩ ⟨he.2.2, hscope⟩
  case identifier.identifier =>
      subst he
      exact .identifier (hscope _ _ rfl) rfl
  case letIn.letIn =>
      obtain ⟨rfl, h₁, h₂⟩ := he
      exact .letIn ⟨h₁, hscope⟩ fun v v' hv => ⟨h₂, (hscope.extend hv _ _).of_bind_eq⟩
  case proc.proc =>
      obtain ⟨rfl, ht, hbody⟩ := he
      refine .proc (Value.Bisimilar.closure Procedure.sameUpTo_monotone ⟨?_, ?_⟩)
      · exact Procedure.mapAnnotations_congr ht hbody
      · exact hscope.mono fun _ _ => .inl
  case apply.apply => exact .apply ⟨he.1, hscope⟩ ⟨he.2, hscope⟩
  case letrec.letrec =>
      obtain ⟨-, rfl, rfl, ht, hbody, hlast⟩ := he
      exact .letrec ⟨hlast, hscope.extendRec_sameUpTo (Procedure.mapAnnotations_congr ht hbody)⟩
  case assert.assert => exact .assert ⟨he.1, hscope⟩ ⟨he.2.1, hscope⟩ (hline _ _ he.2.2)

/-- Expressions that are equal once annotations are replaced run in lockstep, where what is seen of an
error shows no more of them. -/
theorem lockstep_sameUpTo {β : Type} {seen : RuntimeError → β}
    (hline : ∀ line line', g line = g line' →
      seen (.assertionFailed line) = seen (.assertionFailed line'))
    (hinteger : ∀ {v v'} place, Value.SameUpTo f g v v' →
      seen (.notInteger place v) = seen (.notInteger place v'))
    (hboolean : ∀ {v v'} place, Value.SameUpTo f g v v' →
      seen (.notBoolean place v) = seen (.notBoolean place v'))
    (hprocedure : ∀ {v v'}, Value.SameUpTo f g v v' →
      seen (.notProcedure v) = seen (.notProcedure v')) :
    Lockstep (Value.SameUpTo f g) seen (Expr.SameUpTo f g) where
  int := fun _ => .refl _
  bool := fun _ => .refl _
  value := fun h => (h.rule Procedure.sameUpTo_monotone).mono
    fun code home code' home' ⟨hcode, hhome⟩ v v' hv => by
      simp only [Procedure.mapAnnotations, Procedure.mk.injEq] at hcode
      obtain ⟨hparam, -, hbody⟩ := hcode
      rw [← hparam]
      exact ⟨hbody, (hhome.extend hv _ _).of_bind_eq⟩
  expr := Expr.SameUpTo.alikeBy hline
  notInteger := hinteger
  notBoolean := hboolean
  notProcedure := hprocedure

/-! ## Erasure -/

/-- The expression without its types and lines. -/
def Expr.erase : Expr → Expr :=
  mapAnnotations (fun _ => .int) fun _ => none

/-- Integers and truth values that are equal, and closures that have parameters of one name and bodies
that are equal after erasure, in scopes that give each name such values. -/
abbrev Value.SameErased : Value → Value → Prop := SameUpTo (fun _ => .int) fun _ => none

/-- Types are erased when a program runs. Expressions that are equal after erasure take the same steps in
scopes that give each name values which are, and end in such values, in errors of one kind, or not at
all. -/
theorem evaluate_erase {scope scope' : ValueScope} {e e' : Expr} (he : e.erase = e'.erase)
    (hscope : ∀ x, Option.Rel Value.SameErased (scope.value? x) (scope'.value? x)) (limits : Limits)
    (fuel before : Nat) :
    Option.Rel (Run.AlikeBy Value.SameErased RuntimeError.kind) (evaluate fuel limits scope e before)
      (evaluate fuel limits scope' e' before) := by
  have hlockstep : Lockstep Value.SameErased RuntimeError.kind
      (Expr.SameUpTo (fun _ => .int) fun _ => none) :=
    lockstep_sameUpTo (fun _ _ _ => rfl) (fun _ _ => rfl) (fun _ _ => rfl) fun _ => rfl
  refine hlockstep.evalFrom limits fuel 1 before ⟨he, ?_⟩
  rintro x _ rfl
  exact hscope x

/-! ### A procedure that gives itself back -/

/-- A scope of a procedure that takes an argument of a type and gives itself back. -/
def selfScope (t : Ty) : ValueScope := .extendRec "f" ⟨"x", t, .identifier "f"⟩ .empty

/-- Asserts nothing and calls `f` on a procedure with a parameter of a type. -/
def selfCall (t : Ty) (line : Option Int) : Expr :=
  .assert (.bool true) (.apply (.identifier "f") (.proc "y" t (.identifier "y"))) line

/-- The calls differ in the type of the argument, and the second is on no line. -/
theorem selfCall_evaluate_erase :
    (selfCall .int (some 3)).erase = (selfCall .bool none).erase ∧
    (∀ x, Option.Rel Value.SameErased ((selfScope .int).value? x) ((selfScope .bool).value? x)) ∧
    Option.Rel (Run.AlikeBy Value.SameErased RuntimeError.kind)
      (evaluate 5 ⟨none, none⟩ (selfScope .int) (selfCall .int (some 3)) 0)
      (evaluate 5 ⟨none, none⟩ (selfScope .bool) (selfCall .bool none) 0) := by
  have hscope : ValueScope.AlikeAlong Value.SameErased Eq (selfScope .int) (selfScope .bool) :=
    ValueScope.AlikeAlong.extendRec_sameUpTo (.refl .refl .empty) rfl
  exact ⟨rfl, fun x => hscope x x rfl, evaluate_erase rfl (fun x => hscope x x rfl) _ _ _⟩

end TypedLet
