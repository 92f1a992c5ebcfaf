import TypedLet.Proofs.Typing.Inversion

/-!
# The rules of typing

`Typed G e t` says that the expression `e` has the type `t` where its names have the types of `G`. There
is one rule for each form, and where a rule names a type twice the two are the same type. The rules do
not say in which order the parts are looked at, nor what is wrong with an expression without a type. That
an expression has a type is decided by `Expr.typeIn`, and the type is the only one.
-/

namespace TypedLet

inductive Typed : TyScope → Expr → Ty → Prop where
  | number {G text} : Typed G (.number text) .int
  | bool {G b} : Typed G (.bool b) .bool
  | negate {G e} (h : Typed G e .int) : Typed G (.negate e) .int
  | subtract {G e₁ e₂} (h₁ : Typed G e₁ .int) (h₂ : Typed G e₂ .int) :
      Typed G (.subtract e₁ e₂) .int
  | isZero {G e} (h : Typed G e .int) : Typed G (.isZero e) .bool
  | ite {G e e₁ e₂ t} (h : Typed G e .bool) (h₁ : Typed G e₁ t) (h₂ : Typed G e₂ t) :
      Typed G (.ite e e₁ e₂) t
  | identifier {G : TyScope} {x t} (hx : G.type? x = some t) : Typed G (.identifier x) t
  | letIn {G x e₁ e₂ s t} (h₁ : Typed G e₁ s) (h₂ : Typed (G.extend x s) e₂ t) :
      Typed G (.letIn x e₁ e₂) t
  | proc {G x s e t} (h : Typed (G.extend x s) e t) : Typed G (.proc x s e) (.arrow s t)
  | apply {G e₁ e₂ s t} (h₁ : Typed G e₁ (.arrow s t)) (h₂ : Typed G e₂ s) :
      Typed G (.apply e₁ e₂) t
  | letrec {G u f x s e₁ e₂ t} (h₁ : Typed ((G.extend f (.arrow s u)).extend x s) e₁ u)
      (h₂ : Typed (G.extend f (.arrow s u)) e₂ t) : Typed G (.letrec u f x s e₁ e₂) t
  | assert {G e₁ e₂ line t} (h₁ : Typed G e₁ .bool) (h₂ : Typed G e₂ t) :
      Typed G (.assert e₁ e₂ line) t

/-! ## The rules and the checker -/

theorem Typed.typeIn {G : TyScope} {e : Expr} {t : Ty} (h : Typed G e t) : e.typeIn G = .ok t := by
  induction h with
  | number => exact Expr.typeIn_number.mpr rfl
  | bool => exact Expr.typeIn_bool.mpr rfl
  | negate _ ih => exact Expr.typeIn_negate.mpr ⟨ih, rfl⟩
  | subtract _ _ ih₁ ih₂ => exact Expr.typeIn_subtract.mpr ⟨ih₁, ih₂, rfl⟩
  | isZero _ ih => exact Expr.typeIn_isZero.mpr ⟨ih, rfl⟩
  | ite _ _ _ ih ih₁ ih₂ => exact Expr.typeIn_ite.mpr ⟨ih, ih₁, ih₂⟩
  | identifier hx => exact Expr.typeIn_identifier.mpr hx
  | letIn _ _ ih₁ ih₂ => exact Expr.typeIn_letIn.mpr ⟨_, ih₁, ih₂⟩
  | proc _ ih => exact Expr.typeIn_proc.mpr ⟨_, ih, rfl⟩
  | apply _ _ ih₁ ih₂ => exact Expr.typeIn_apply.mpr ⟨_, ih₁, ih₂⟩
  | letrec _ _ ih₁ ih₂ => exact Expr.typeIn_letrec.mpr ⟨ih₁, ih₂⟩
  | assert _ _ ih₁ ih₂ => exact Expr.typeIn_assert.mpr ⟨ih₁, ih₂⟩

theorem typed_of_typeIn {e : Expr} {G : TyScope} {t : Ty} (h : e.typeIn G = .ok t) : Typed G e t := by
  induction e generalizing G t with
  | number text =>
      obtain rfl := Expr.typeIn_number.mp h
      exact .number
  | bool b =>
      obtain rfl := Expr.typeIn_bool.mp h
      exact .bool
  | negate d ih =>
      obtain ⟨hd, rfl⟩ := Expr.typeIn_negate.mp h
      exact .negate (ih hd)
  | subtract d₁ d₂ ih₁ ih₂ =>
      obtain ⟨h₁, h₂, rfl⟩ := Expr.typeIn_subtract.mp h
      exact .subtract (ih₁ h₁) (ih₂ h₂)
  | isZero d ih =>
      obtain ⟨hd, rfl⟩ := Expr.typeIn_isZero.mp h
      exact .isZero (ih hd)
  | ite d d₁ d₂ ih ih₁ ih₂ =>
      obtain ⟨hd, h₁, h₂⟩ := Expr.typeIn_ite.mp h
      exact .ite (ih hd) (ih₁ h₁) (ih₂ h₂)
  | identifier x => exact .identifier (Expr.typeIn_identifier.mp h)
  | letIn x d₁ d₂ ih₁ ih₂ =>
      obtain ⟨s, h₁, h₂⟩ := Expr.typeIn_letIn.mp h
      exact .letIn (ih₁ h₁) (ih₂ h₂)
  | proc x s d ih =>
      obtain ⟨u, hd, rfl⟩ := Expr.typeIn_proc.mp h
      exact .proc (ih hd)
  | apply d₁ d₂ ih₁ ih₂ =>
      obtain ⟨s, h₁, h₂⟩ := Expr.typeIn_apply.mp h
      exact .apply (ih₁ h₁) (ih₂ h₂)
  | letrec u f x s d₁ d₂ ih₁ ih₂ =>
      obtain ⟨h₁, h₂⟩ := Expr.typeIn_letrec.mp h
      exact .letrec (ih₁ h₁) (ih₂ h₂)
  | assert d₁ d₂ line ih₁ ih₂ =>
      obtain ⟨h₁, h₂⟩ := Expr.typeIn_assert.mp h
      exact .assert (ih₁ h₁) (ih₂ h₂)

theorem typeIn_iff_typed {G : TyScope} {e : Expr} {t : Ty} : e.typeIn G = .ok t ↔ Typed G e t :=
  ⟨typed_of_typeIn, Typed.typeIn⟩

instance (G : TyScope) (e : Expr) (t : Ty) : Decidable (Typed G e t) :=
  match h : e.typeIn G with
  | .ok u => decidable_of_iff (u = t) (by rw [← typeIn_iff_typed, h, Except.ok.injEq])
  | .error _ => isFalse fun ht => by cases ht.typeIn.symm.trans h

example : ¬ Typed .empty (.letIn "x" (.identifier "x") (.number "1")) .int := by decide

theorem Typed.unique {G : TyScope} {e : Expr} {t u : Ty} (h : Typed G e t) (h' : Typed G e u) :
    t = u :=
  Except.ok.inj (h.typeIn.symm.trans h'.typeIn)

/-- The checker gives just the types that the rules derive. There is at most one for an expression, and
where there is none the checker fails with an error. -/
theorem typeIn_decides_typed (G : TyScope) (e : Expr) :
    (∀ t, e.typeIn G = .ok t ↔ Typed G e t) ∧
      (∀ t u, Typed G e t → Typed G e u → t = u) ∧
      ((∃ err, e.typeIn G = .error err) ↔ ∀ t, ¬ Typed G e t) := by
  refine ⟨fun t => typeIn_iff_typed, fun t u => Typed.unique, ?_⟩
  constructor
  · rintro ⟨err, herr⟩ t ht
    rw [ht.typeIn] at herr
    cases herr
  · intro hnone
    cases h : e.typeIn G with
    | ok t => exact absurd (typed_of_typeIn h) (hnone t)
    | error err => exact ⟨err, rfl⟩

/-- A parameter with the name of its procedure hides it in the body and not behind it. -/
def hidingProgram : Expr :=
  .letrec .int "f" "f" .int (.subtract (.identifier "f") (.number "1"))
    (.apply (.identifier "f") (.number "7"))

theorem hidingProgram_typed : Typed .empty hidingProgram .int ∧ ¬ Typed .empty hidingProgram .bool := by
  obtain ⟨hiff, hunique, -⟩ := typeIn_decides_typed .empty hidingProgram
  have hint : Typed .empty hidingProgram .int := (hiff .int).mp rfl
  exact ⟨hint, fun hbool => absurd (hunique .int .bool hint hbool) (by decide)⟩

end TypedLet
