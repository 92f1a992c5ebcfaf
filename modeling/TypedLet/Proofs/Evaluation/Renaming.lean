import Mathlib.Data.Finset.Basic
import TypedLet.Proofs.Evaluation.Bisimilarity
import TypedLet.Typing

/-!
# Renaming bound names

The name that a binder binds can be changed, together with the occurrences that it binds, to any name that
does not occur, and nobody can tell: the expression has the same type, and runs in lockstep with what it
was before. Behind the binder the two runs look different names up. So expressions are compared along a
correspondence of names, which each pair of binders changes in the same way (`Expr.Alpha`), and closures
along the correspondence of the scopes that they were made in.
-/

namespace TypedLet

namespace Expr

/-! ## Renaming -/

/-- Every name in the expression: those that are used and those that are bound. -/
def names : Expr → Finset String
  | number _ | bool _ => ∅
  | negate e | isZero e => e.names
  | subtract e₁ e₂ | apply e₁ e₂ | assert e₁ e₂ _ => e₁.names ∪ e₂.names
  | ite e₁ e₂ e₃ => e₁.names ∪ e₂.names ∪ e₃.names
  | identifier x => {x}
  | letIn x e₁ e₂ => insert x (e₁.names ∪ e₂.names)
  | proc x _ e => insert x e.names
  | letrec _ f x _ e₁ e₂ => insert f (insert x (e₁.names ∪ e₂.names))

/-- The expression with `y` in place of each `x` that is not bound in it. -/
def renameFree (x y : String) : Expr → Expr
  | number text => number text
  | bool b => bool b
  | negate e => negate (e.renameFree x y)
  | subtract e₁ e₂ => subtract (e₁.renameFree x y) (e₂.renameFree x y)
  | isZero e => isZero (e.renameFree x y)
  | ite e₁ e₂ e₃ => ite (e₁.renameFree x y) (e₂.renameFree x y) (e₃.renameFree x y)
  | identifier z => identifier (if z = x then y else z)
  | letIn z e₁ e₂ => letIn z (e₁.renameFree x y) (if z = x then e₂ else e₂.renameFree x y)
  | proc z t e => proc z t (if z = x then e else e.renameFree x y)
  | apply e₁ e₂ => apply (e₁.renameFree x y) (e₂.renameFree x y)
  | letrec t f z s e₁ e₂ =>
    if f = x then letrec t f z s e₁ e₂
    else letrec t f z s (if z = x then e₁ else e₁.renameFree x y) (e₂.renameFree x y)
  | assert e₁ e₂ line => assert (e₁.renameFree x y) (e₂.renameFree x y) line

/-- The second expression is the first in which one binder binds `y`, and so do the occurrences that it
binds. There is one rule for each kind of binder, and one for each place where the binder can stand. -/
inductive RenamesBinder (y : String) : Expr → Expr → Prop where
  | letName (x : String) (e₁ e₂ : Expr) :
      RenamesBinder y (letIn x e₁ e₂) (letIn y e₁ (e₂.renameFree x y))
  | procParameter (x : String) (t : Ty) (e : Expr) :
      RenamesBinder y (proc x t e) (proc y t (e.renameFree x y))
  /-- A parameter of the name of the procedure hides it in the body. -/
  | letrecName (t : Ty) (f x : String) (s : Ty) (e₁ e₂ : Expr) :
      RenamesBinder y (letrec t f x s e₁ e₂)
        (letrec t y x s (if x = f then e₁ else e₁.renameFree f y) (e₂.renameFree f y))
  | letrecParameter (t : Ty) (f x : String) (s : Ty) (e₁ e₂ : Expr) :
      RenamesBinder y (letrec t f x s e₁ e₂) (letrec t f y s (e₁.renameFree x y) e₂)
  | negate {e e' : Expr} (h : RenamesBinder y e e') : RenamesBinder y (negate e) (negate e')
  | subtractLeft {e e' : Expr} (h : RenamesBinder y e e') (right : Expr) :
      RenamesBinder y (subtract e right) (subtract e' right)
  | subtractRight (left : Expr) {e e' : Expr} (h : RenamesBinder y e e') :
      RenamesBinder y (subtract left e) (subtract left e')
  | isZero {e e' : Expr} (h : RenamesBinder y e e') : RenamesBinder y (isZero e) (isZero e')
  | iteGuard {e e' : Expr} (h : RenamesBinder y e e') (e₁ e₂ : Expr) :
      RenamesBinder y (ite e e₁ e₂) (ite e' e₁ e₂)
  | iteThen (guard : Expr) {e e' : Expr} (h : RenamesBinder y e e') (e₂ : Expr) :
      RenamesBinder y (ite guard e e₂) (ite guard e' e₂)
  | iteElse (guard e₁ : Expr) {e e' : Expr} (h : RenamesBinder y e e') :
      RenamesBinder y (ite guard e₁ e) (ite guard e₁ e')
  | letInit (x : String) {e e' : Expr} (h : RenamesBinder y e e') (body : Expr) :
      RenamesBinder y (letIn x e body) (letIn x e' body)
  | letBody (x : String) (init : Expr) {e e' : Expr} (h : RenamesBinder y e e') :
      RenamesBinder y (letIn x init e) (letIn x init e')
  | procBody (x : String) (t : Ty) {e e' : Expr} (h : RenamesBinder y e e') :
      RenamesBinder y (proc x t e) (proc x t e')
  | applyProcedure {e e' : Expr} (h : RenamesBinder y e e') (arg : Expr) :
      RenamesBinder y (apply e arg) (apply e' arg)
  | applyArgument (fn : Expr) {e e' : Expr} (h : RenamesBinder y e e') :
      RenamesBinder y (apply fn e) (apply fn e')
  | letrecBody (t : Ty) (f x : String) (s : Ty) {e e' : Expr} (h : RenamesBinder y e e')
      (last : Expr) : RenamesBinder y (letrec t f x s e last) (letrec t f x s e' last)
  | letrecLast (t : Ty) (f x : String) (s : Ty) (body : Expr) {e e' : Expr}
      (h : RenamesBinder y e e') : RenamesBinder y (letrec t f x s body e) (letrec t f x s body e')
  | assertGuard {e e' : Expr} (h : RenamesBinder y e e') (body : Expr) (line : Option Int) :
      RenamesBinder y (assert e body line) (assert e' body line)
  | assertBody (guard : Expr) {e e' : Expr} (h : RenamesBinder y e e') (line : Option Int) :
      RenamesBinder y (assert guard e line) (assert guard e' line)

/-! ## Expressions along a correspondence of names -/

/-- The expressions differ in bound names alone, and names that are bound outside correspond. -/
inductive Alpha : Correspondence → Expr → Expr → Prop where
  | number {N} (text : String) : Alpha N (number text) (number text)
  | bool {N} (b : Bool) : Alpha N (bool b) (bool b)
  | negate {N e e'} (h : Alpha N e e') : Alpha N (negate e) (negate e')
  | subtract {N e₁ e₂ e₁' e₂'} (h₁ : Alpha N e₁ e₁') (h₂ : Alpha N e₂ e₂') :
      Alpha N (subtract e₁ e₂) (subtract e₁' e₂')
  | isZero {N e e'} (h : Alpha N e e') : Alpha N (isZero e) (isZero e')
  | ite {N e e₁ e₂ e' e₁' e₂'} (h : Alpha N e e') (h₁ : Alpha N e₁ e₁') (h₂ : Alpha N e₂ e₂') :
      Alpha N (ite e e₁ e₂) (ite e' e₁' e₂')
  | identifier {N : Correspondence} {x x'} (h : N x x') : Alpha N (identifier x) (identifier x')
  | letIn {N x x' e₁ e₂ e₁' e₂'} (h₁ : Alpha N e₁ e₁') (h₂ : Alpha (N.bind x x') e₂ e₂') :
      Alpha N (letIn x e₁ e₂) (letIn x' e₁' e₂')
  | proc {N x x' t e e'} (h : Alpha (N.bind x x') e e') : Alpha N (proc x t e) (proc x' t e')
  | apply {N e₁ e₂ e₁' e₂'} (h₁ : Alpha N e₁ e₁') (h₂ : Alpha N e₂ e₂') :
      Alpha N (apply e₁ e₂) (apply e₁' e₂')
  | letrec {N t f f' x x' s e₁ e₂ e₁' e₂'} (h₁ : Alpha ((N.bind f f').bind x x') e₁ e₁')
      (h₂ : Alpha (N.bind f f') e₂ e₂') : Alpha N (letrec t f x s e₁ e₂) (letrec t f' x' s e₁' e₂')
  | assert {N e₁ e₂ e₁' e₂' line} (h₁ : Alpha N e₁ e₁') (h₂ : Alpha N e₂ e₂') :
      Alpha N (assert e₁ e₂ line) (assert e₁' e₂' line)

/-- An expression stays as it is where each of its names corresponds to itself. -/
theorem Alpha.refl {N : Correspondence} {e : Expr} (h : ∀ x ∈ e.names, N x x) : Alpha N e e := by
  induction e generalizing N <;>
    simp only [names, Finset.mem_insert, Finset.mem_union, Finset.mem_singleton, or_imp, forall_and,
      forall_eq] at h
  case number text => exact .number text
  case bool b => exact .bool b
  case negate ih => exact .negate (ih h)
  case subtract ih₁ ih₂ => exact .subtract (ih₁ h.1) (ih₂ h.2)
  case isZero ih => exact .isZero (ih h)
  case ite ih ih₁ ih₂ => exact .ite (ih h.1.1) (ih₁ h.1.2) (ih₂ h.2)
  case identifier x => exact .identifier h
  case letIn ih₁ ih₂ =>
      exact .letIn (ih₁ h.2.1) (ih₂ fun z hz => Correspondence.bind_self fun _ => h.2.2 z hz)
  case proc ih => exact .proc (ih fun z hz => Correspondence.bind_self fun _ => h.2 z hz)
  case apply ih₁ ih₂ => exact .apply (ih₁ h.1) (ih₂ h.2)
  case letrec ih₁ ih₂ =>
      obtain ⟨-, -, h₁, h₂⟩ := h
      refine .letrec (ih₁ fun z hz => ?_) (ih₂ fun z hz => Correspondence.bind_self fun _ => h₂ z hz)
      exact Correspondence.bind_self fun _ => Correspondence.bind_self fun _ => h₁ z hz
  case assert ih₁ ih₂ => exact .assert (ih₁ h.1) (ih₂ h.2)

/-- What is behind a binder that may bind the name already is renamed where it does not. -/
theorem Alpha.of_renameFree_behind {N : Correspondence} {e : Expr} {x y z : String}
    (he : ∀ {M : Correspondence}, M x y → (∀ w ∈ e.names, w ≠ x → M w w) → Alpha M e (e.renameFree x y))
    (hxy : N x y) (h : ∀ w ∈ e.names, w ≠ x → N w w) (hzy : z ≠ y) :
    Alpha (N.bind z z) e (if z = x then e else e.renameFree x y) := by
  by_cases hzx : z = x
  · rw [if_pos hzx]
    exact .refl fun w hw => Correspondence.bind_self fun hne => h w hw (hzx ▸ hne.symm)
  · rw [if_neg hzx]
    exact he (.inr ⟨hzx, hzy, hxy⟩) fun w hw hwx => Correspondence.bind_self fun _ => h w hw hwx

/-- Where `x` corresponds to a name that does not occur, it is renamed to that name. -/
theorem Alpha.of_renameFree {e : Expr} {x y : String} (hy : y ∉ e.names) {N : Correspondence}
    (hxy : N x y) (h : ∀ w ∈ e.names, w ≠ x → N w w) : Alpha N e (e.renameFree x y) := by
  induction e generalizing N <;>
    simp only [names, Finset.mem_insert, Finset.mem_union, Finset.mem_singleton, or_imp, forall_and,
      forall_eq, not_or] at hy h
  case number text => exact .number text
  case bool b => exact .bool b
  case negate ih => exact .negate (ih hy hxy h)
  case subtract ih₁ ih₂ => exact .subtract (ih₁ hy.1 hxy h.1) (ih₂ hy.2 hxy h.2)
  case isZero ih => exact .isZero (ih hy hxy h)
  case ite ih ih₁ ih₂ =>
      exact .ite (ih hy.1.1 hxy h.1.1) (ih₁ hy.1.2 hxy h.1.2) (ih₂ hy.2 hxy h.2)
  case identifier z =>
      by_cases hz : z = x
      · rw [renameFree, if_pos hz]
        exact .identifier (hz ▸ hxy)
      · rw [renameFree, if_neg hz]
        exact .identifier (h hz)
  case letIn ih₁ ih₂ =>
      obtain ⟨hzy, hy₁, hy₂⟩ := hy
      exact .letIn (ih₁ hy₁ hxy h.2.1) (of_renameFree_behind (ih₂ hy₂) hxy h.2.2 (Ne.symm hzy))
  case proc ih => exact .proc (of_renameFree_behind (ih hy.2) hxy h.2 (Ne.symm hy.1))
  case apply ih₁ ih₂ => exact .apply (ih₁ hy.1 hxy h.1) (ih₂ hy.2 hxy h.2)
  case letrec t f z s e₁ e₂ ih₁ ih₂ =>
      obtain ⟨hfy, hzy, hy₁, hy₂⟩ := hy
      obtain ⟨-, -, h₁, h₂⟩ := h
      by_cases hf : f = x
      · rw [renameFree, if_pos hf]
        have hbound : ∀ w ∈ e₁.names ∪ e₂.names, N.bind f f w w := fun w hw =>
          Correspondence.bind_self fun hne => by
            subst hf
            rcases Finset.mem_union.1 hw with hw | hw
            · exact h₁ w hw hne.symm
            · exact h₂ w hw hne.symm
        refine .letrec (.refl fun w hw => Correspondence.bind_self fun _ => ?_) (.refl fun w hw => ?_)
        · exact hbound w (Finset.mem_union_left _ hw)
        · exact hbound w (Finset.mem_union_right _ hw)
      · rw [renameFree, if_neg hf]
        have hinner : N.bind f f x y := .inr ⟨hf, Ne.symm hfy, hxy⟩
        refine .letrec (of_renameFree_behind (ih₁ hy₁) hinner (fun w hw hwx => ?_) (Ne.symm hzy))
          (ih₂ hy₂ hinner fun w hw hwx => ?_)
        · exact Correspondence.bind_self fun _ => h₁ w hw hwx
        · exact Correspondence.bind_self fun _ => h₂ w hw hwx
  case assert ih₁ ih₂ => exact .assert (ih₁ hy.1 hxy h.1) (ih₂ hy.2 hxy h.2)

/-- To rename a binder is to change bound names alone. -/
theorem Alpha.of_renamesBinder {y : String} {e e' : Expr} (he : RenamesBinder y e e') (hy : y ∉ e.names)
    {N : Correspondence} (h : ∀ x ∈ e.names, N x x) : Alpha N e e' := by
  -- The names behind the renamed binder correspond to themselves, but for the renamed one.
  have hbehind : ∀ {N : Correspondence} {x : String} {d : Expr}, y ∉ d.names →
      (∀ w ∈ d.names, N w w) → ∀ w ∈ d.names, w ≠ x → N.bind x y w w :=
    fun hy hN w hw hwx => .inr ⟨hwx.symm, fun hyw => hy (hyw ▸ hw), hN w hw⟩
  induction he generalizing N <;>
    simp only [names, Finset.mem_insert, Finset.mem_union, or_imp, forall_and, forall_eq,
      not_or] at hy h
  case letName x e₁ e₂ =>
      exact .letIn (.refl h.2.1) (.of_renameFree hy.2.2 (.inl ⟨rfl, rfl⟩) (hbehind hy.2.2 h.2.2))
  case procParameter x t d =>
      exact .proc (.of_renameFree hy.2 (.inl ⟨rfl, rfl⟩) (hbehind hy.2 h.2))
  case letrecName t f x s e₁ e₂ =>
      obtain ⟨-, hyx, hy₁, hy₂⟩ := hy
      obtain ⟨-, -, h₁, h₂⟩ := h
      refine .letrec (.of_renameFree_behind (.of_renameFree hy₁) (.inl ⟨rfl, rfl⟩) (hbehind hy₁ h₁) ?_)
        (.of_renameFree hy₂ (.inl ⟨rfl, rfl⟩) (hbehind hy₂ h₂))
      exact Ne.symm hyx
  case letrecParameter t f x s e₁ e₂ =>
      obtain ⟨-, -, hy₁, -⟩ := hy
      obtain ⟨-, -, h₁, h₂⟩ := h
      refine .letrec (.of_renameFree hy₁ (.inl ⟨rfl, rfl⟩) (hbehind hy₁ fun w hw => ?_))
        (.refl fun w hw => Correspondence.bind_self fun _ => h₂ w hw)
      exact Correspondence.bind_self fun _ => h₁ w hw
  case negate ih => exact .negate (ih hy h)
  case subtractLeft ih => exact .subtract (ih hy.1 h.1) (.refl h.2)
  case subtractRight ih => exact .subtract (.refl h.1) (ih hy.2 h.2)
  case isZero ih => exact .isZero (ih hy h)
  case iteGuard ih => exact .ite (ih hy.1.1 h.1.1) (.refl h.1.2) (.refl h.2)
  case iteThen ih => exact .ite (.refl h.1.1) (ih hy.1.2 h.1.2) (.refl h.2)
  case iteElse ih => exact .ite (.refl h.1.1) (.refl h.1.2) (ih hy.2 h.2)
  case letInit ih =>
      exact .letIn (ih hy.2.1 h.2.1) (.refl fun w hw => Correspondence.bind_self fun _ => h.2.2 w hw)
  case letBody ih =>
      exact .letIn (.refl h.2.1) (ih hy.2.2 fun w hw => Correspondence.bind_self fun _ => h.2.2 w hw)
  case procBody ih => exact .proc (ih hy.2 fun w hw => Correspondence.bind_self fun _ => h.2 w hw)
  case applyProcedure ih => exact .apply (ih hy.1 h.1) (.refl h.2)
  case applyArgument ih => exact .apply (.refl h.1) (ih hy.2 h.2)
  case letrecBody ih =>
      obtain ⟨-, -, hy₁, -⟩ := hy
      obtain ⟨-, -, h₁, h₂⟩ := h
      refine .letrec (ih hy₁ fun w hw => ?_) (.refl fun w hw => Correspondence.bind_self fun _ => h₂ w hw)
      exact Correspondence.bind_self fun _ => Correspondence.bind_self fun _ => h₁ w hw
  case letrecLast ih =>
      obtain ⟨-, -, -, hy₂⟩ := hy
      obtain ⟨-, -, h₁, h₂⟩ := h
      refine .letrec (.refl fun w hw => ?_) (ih hy₂ fun w hw => Correspondence.bind_self fun _ => h₂ w hw)
      exact Correspondence.bind_self fun _ => Correspondence.bind_self fun _ => h₁ w hw
  case assertGuard ih => exact .assert (ih hy.1 h.1) (.refl h.2)
  case assertBody ih => exact .assert (.refl h.1) (ih hy.2 h.2)

end Expr

/-! ## Types -/

/-- Names that correspond have the same type in the two scopes, or none. -/
def TyScope.SameAlong (N : Correspondence) (G G' : TyScope) : Prop :=
  ∀ x x', N x x' → G.type? x = G'.type? x'

theorem TyScope.SameAlong.extend {N : Correspondence} {G G' : TyScope} (h : SameAlong N G G')
    (x x' : String) (t : Ty) : SameAlong (N.bind x x') (G.extend x t) (G'.extend x' t) := by
  rintro y y' (⟨rfl, rfl⟩ | ⟨hx, hx', hy⟩)
  · rw [type?_extend_self, type?_extend_self]
  · rw [type?_extend_of_ne G t hx, type?_extend_of_ne G' t hx']
    exact h y y' hy

theorem except_mapError_bind {ε δ α β : Type} (g : ε → δ) (x : Except ε α) (f : α → Except ε β) :
    (x >>= f).mapError g = x.mapError g >>= fun a => (f a).mapError g := by
  cases x <;> rfl

/-- Expressions along a correspondence have the same type, or errors of the same kind. -/
theorem Expr.Alpha.typeIn {N : Correspondence} {e e' : Expr} (h : Alpha N e e') {G G' : TyScope}
    (hG : TyScope.SameAlong N G G') :
    (e.typeIn G).mapError TypeError.kind = (e'.typeIn G').mapError TypeError.kind := by
  induction h generalizing G G' with
  | number | bool => rfl
  | negate _ ih | isZero _ ih => simp only [Expr.typeIn, except_mapError_bind, ih hG]
  | subtract _ _ ih₁ ih₂ | assert _ _ ih₁ ih₂ =>
      simp only [Expr.typeIn, except_mapError_bind, ih₁ hG, ih₂ hG]
  | ite _ _ _ ih ih₁ ih₂ => simp only [Expr.typeIn, except_mapError_bind, ih hG, ih₁ hG, ih₂ hG]
  | identifier hx =>
      rename_i x x'
      rw [Expr.typeIn, Expr.typeIn, hG x x' hx]
      cases G'.type? x' <;> rfl
  | letIn _ _ ih₁ ih₂ =>
      simp only [Expr.typeIn, except_mapError_bind, ih₁ hG, ih₂ (hG.extend _ _ _)]
  | proc _ ih => simp only [Expr.typeIn, except_mapError_bind, ih (hG.extend _ _ _)]
  | apply _ _ ih₁ ih₂ =>
      simp only [Expr.typeIn, except_mapError_bind, ih₁ hG]
      refine congrArg _ (funext fun t => ?_)
      cases t with
      | int | bool => rfl
      | arrow domain codomain => simp only [except_mapError_bind, ih₂ hG]
  | @letrec _ t f f' _ _ s _ _ _ _ _ _ ih₁ ih₂ =>
      have hinner := hG.extend f f' (.arrow s t)
      simp only [Expr.typeIn, except_mapError_bind, ih₁ (hinner.extend _ _ _)]
      refine congrArg _ (funext fun u => ?_)
      split
      · exact ih₂ hinner
      · rfl

/-! ## Evaluation -/

/-- The closures are of procedures that differ in bound names alone, along a correspondence of the scopes
that they were made in. -/
def Procedure.AlphaBy : ClosureRule := fun R code home code' home' =>
  code.paramType = code'.paramType ∧ ∃ N : Correspondence,
    Expr.Alpha (N.bind code.param code'.param) code.body code'.body ∧
      ValueScope.AlikeAlong R N home home'

theorem Procedure.alphaBy_monotone : Procedure.AlphaBy.Monotone := by
  rintro R S hRS code home code' home' ⟨htype, N, hbody, hhome⟩
  exact ⟨htype, N, hbody, hhome.mono hRS⟩

/-- Integers and truth values that are equal, and closures that differ in bound names alone. -/
abbrev Value.Alpha : Value → Value → Prop := Bisimilar Procedure.AlphaBy

theorem Value.Alpha.refl (v : Value) : v.Alpha v := by
  refine Bisimilar.refl (fun code home => ⟨rfl, Eq, ?_, .refl (fun _ => rfl) home⟩) v
  exact .refl fun x _ => Correspondence.bind_self fun _ => rfl

/-- The expressions differ in bound names alone, along a correspondence of their scopes. -/
def Expr.AlphaIn (scope : ValueScope) (e : Expr) (scope' : ValueScope) (e' : Expr) : Prop :=
  ∃ N : Correspondence, Alpha N e e' ∧ ValueScope.AlikeAlong Value.Alpha N scope scope'

theorem Expr.AlphaIn.alikeBy {scope scope' : ValueScope} {e e' : Expr}
    (h : AlphaIn scope e scope' e') :
    AlikeBy Value.Alpha RuntimeError.kind AlphaIn scope e scope' e' := by
  obtain ⟨N, he, hscope⟩ := h
  cases he with
  | number text => exact .number text
  | bool b => exact .bool b
  | negate h => exact .negate ⟨N, h, hscope⟩
  | subtract h₁ h₂ => exact .subtract ⟨N, h₁, hscope⟩ ⟨N, h₂, hscope⟩
  | isZero h => exact .isZero ⟨N, h, hscope⟩
  | ite h h₁ h₂ => exact .ite ⟨N, h, hscope⟩ ⟨N, h₁, hscope⟩ ⟨N, h₂, hscope⟩
  | identifier hx => exact .identifier (hscope _ _ hx) rfl
  | letIn h₁ h₂ =>
      exact .letIn ⟨N, h₁, hscope⟩ fun v v' hv => ⟨N.bind _ _, h₂, hscope.extend hv _ _⟩
  | proc h =>
      refine .proc (Value.Bisimilar.closure Procedure.alphaBy_monotone ⟨rfl, N, h, ?_⟩)
      exact hscope.mono fun _ _ => .inl
  | apply h₁ h₂ => exact .apply ⟨N, h₁, hscope⟩ ⟨N, h₂, hscope⟩
  | letrec h₁ h₂ =>
      refine .letrec ⟨N.bind _ _, h₂, hscope.extendRec ?_⟩
      refine Value.Bisimilar.closure Procedure.alphaBy_monotone ⟨rfl, N.bind _ _, h₁, ?_⟩
      exact (hscope.mono fun _ _ => .inl).extendRec (.inr ⟨rfl, rfl⟩)
  | assert h₁ h₂ => exact .assert ⟨N, h₁, hscope⟩ ⟨N, h₂, hscope⟩ rfl

theorem lockstep_alpha : Lockstep Value.Alpha RuntimeError.kind Expr.AlphaIn where
  int := fun _ => .refl _
  bool := fun _ => .refl _
  value := fun h => (h.rule Procedure.alphaBy_monotone).mono
    fun _ _ _ _ ⟨_, N, hbody, hhome⟩ _ _ hv => ⟨N.bind _ _, hbody, hhome.extend hv _ _⟩
  expr := Expr.AlphaIn.alikeBy
  notInteger := fun _ _ => rfl
  notBoolean := fun _ _ => rfl
  notProcedure := fun _ => rfl

/-! ## What renaming leaves as it is -/

/-- A binder can be renamed, together with the occurrences that it binds, to a name that does not occur,
and nobody can tell. In every scope the type is the same, or the kind of the type error. Every evaluation
takes the same steps and comes to the same integer or truth value, to closures with parameters of one
type, to errors of one kind, or to nothing. -/
theorem renamesBinder_unobservable {y : String} {e e' : Expr} (he : e.RenamesBinder y e')
    (hy : y ∉ e.names) :
    (∀ G : TyScope,
      (e.typeIn G).mapError TypeError.kind = (e'.typeIn G).mapError TypeError.kind) ∧
    ∀ (scope : ValueScope) (limits : Limits) (fuel before : Nat), Option.Rel
      (Run.AlikeBy (Value.AlikeBy fun code _ code' _ => code.paramType = code'.paramType)
        RuntimeError.kind)
      (evaluate fuel limits scope e before) (evaluate fuel limits scope e' before) := by
  have halpha : Expr.Alpha Eq e e' := .of_renamesBinder he hy fun _ _ => rfl
  refine ⟨fun G => halpha.typeIn fun x x' hx => hx ▸ rfl, fun scope limits fuel before => ?_⟩
  have hruns := lockstep_alpha.evalFrom limits fuel 1 before ⟨Eq, halpha, .refl .refl scope⟩
  refine hruns.mono fun run run' hrun => hrun.mono fun v v' hv => ?_
  exact (hv.rule Procedure.alphaBy_monotone).mono fun _ _ _ _ h => h.1

/-! ### A parameter of the name of its procedure -/

/-- A procedure whose parameter hides it: the call gives back its argument. -/
def hiddenCall : Expr :=
  .letIn "a" (.number "3")
    (.letrec .int "f" "f" .int (.identifier "f") (.apply (.identifier "f") (.identifier "a")))

/-- The procedure has another name, which the call uses and the body does not. -/
def renamedCall : Expr :=
  .letIn "a" (.number "3")
    (.letrec .int "g" "f" .int (.identifier "f") (.apply (.identifier "g") (.identifier "a")))

theorem hiddenCall_renamed_unobservable :
    hiddenCall.RenamesBinder "g" renamedCall ∧ "g" ∉ hiddenCall.names ∧
    (∀ G : TyScope,
      (hiddenCall.typeIn G).mapError TypeError.kind = (renamedCall.typeIn G).mapError TypeError.kind) ∧
    Option.Rel
      (Run.AlikeBy (Value.AlikeBy fun code _ code' _ => code.paramType = code'.paramType)
        RuntimeError.kind)
      (evaluate 6 ⟨none, none⟩ (.extend "g" (.bool true) .empty) hiddenCall 0)
      (evaluate 6 ⟨none, none⟩ (.extend "g" (.bool true) .empty) renamedCall 0) := by
  have hrenames : hiddenCall.RenamesBinder "g" renamedCall :=
    .letBody "a" (.number "3") (.letrecName .int "f" "f" .int (.identifier "f")
      (.apply (.identifier "f") (.identifier "a")))
  have hfresh : "g" ∉ hiddenCall.names := by decide
  obtain ⟨htype, hruns⟩ := renamesBinder_unobservable hrenames hfresh
  exact ⟨hrenames, hfresh, htype, hruns _ _ _ _⟩

end TypedLet
