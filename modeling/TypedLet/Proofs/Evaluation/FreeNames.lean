import TypedLet.Program
import TypedLet.Proofs.Evaluation.Bisimilarity
import TypedLet.Proofs.Typing.FreeNames

/-!
# Evaluation and free names

What an expression comes to depends on what its free names stand for, and on nothing else in its scope.
Two runs that start in different scopes make closures over different scopes, and these are called later.
So values cannot be asked to be equal: closures are equivalent when they are of one procedure, and their
scopes give equivalent values to its free names. The scope of a recursive procedure holds the closure
itself, so equivalence is the greatest relation that keeps to this rule (`Value.Equiv`).
-/

namespace TypedLet

/-- The names that the procedure takes from the scope it is made in. -/
def Procedure.freeNames (code : Procedure) : Finset String :=
  code.body.freeNames.erase code.param

/-- In the two scopes each of the names stands for values that `R` relates, or for nothing. -/
def ValueScope.AlikeOn (R : Value → Value → Prop) (names : Finset String) (scope scope' : ValueScope) :
    Prop :=
  ∀ x ∈ names, Option.Rel R (scope.value? x) (scope'.value? x)

/-- The closures are of one procedure, and their scopes give values that `R` relates to its free names. -/
def Procedure.SameBy (R : Value → Value → Prop) (code : Procedure) (home : ValueScope)
    (code' : Procedure) (home' : ValueScope) : Prop :=
  code = code' ∧ ValueScope.AlikeOn R code.freeNames home home'

/-- No expression tells the two values apart: the greatest relation for which closures are of one
procedure and their scopes give related values to its free names. -/
def Value.Equiv (v v' : Value) : Prop :=
  ∃ R : Value → Value → Prop, (∀ w w', R w w' → w.AlikeBy (Procedure.SameBy R) w') ∧ R v v'

/-! ## Equivalent values -/

namespace ValueScope

variable {R S : Value → Value → Prop} {names : Finset String} {scope scope' : ValueScope}

theorem AlikeOn.mono (hRS : ∀ v v', R v v' → S v v') (h : AlikeOn R names scope scope') :
    AlikeOn S names scope scope' :=
  fun x hx => (h x hx).mono hRS

theorem AlikeOn.subset {more : Finset String} (h : AlikeOn R more scope scope') (hnames : names ⊆ more) :
    AlikeOn R names scope scope' :=
  fun x hx => h x (hnames hx)

/-- Scopes with the same look-ups are alike if values are related to themselves. -/
theorem AlikeOn.of_eq (hR : ∀ v, R v v) (h : ∀ x ∈ names, scope.value? x = scope'.value? x) :
    AlikeOn R names scope scope' := by
  intro x hx
  rw [h x hx]
  cases scope'.value? x with
  | none => exact .none
  | some v => exact .some (hR v)

theorem AlikeOn.along (h : AlikeOn R names scope scope') :
    AlikeAlong R (fun x x' => x = x' ∧ x ∈ names) scope scope' := by
  rintro x _ ⟨rfl, hx⟩
  exact h x hx

/-- Behind binders of one name, that name and each other one corresponds to itself. -/
theorem AlikeOn.of_bind {x : String}
    (h : AlikeAlong R (Correspondence.bind (fun y y' => y = y' ∧ y ∈ names.erase x) x x) scope scope') :
    AlikeOn R names scope scope' :=
  fun y hy => h y y (Correspondence.bind_self fun hxy => ⟨rfl, Finset.mem_erase.2 ⟨hxy.symm, hy⟩⟩)

theorem AlikeOn.extend {x : String} {v v' : Value} (h : AlikeOn R (names.erase x) scope scope')
    (hv : R v v') : AlikeOn R names (scope.extend x v) (scope'.extend x v') :=
  .of_bind (h.along.extend hv x x)

theorem AlikeOn.extendRec {f : String} {code code' : Procedure}
    (h : AlikeOn R (names.erase f) scope scope')
    (hcode : R (.closure code (scope.extendRec f code)) (.closure code' (scope'.extendRec f code'))) :
    AlikeOn R names (scope.extendRec f code) (scope'.extendRec f code') :=
  .of_bind (h.along.extendRec hcode)

end ValueScope

theorem Procedure.sameBy_monotone : ClosureRule.Monotone SameBy := by
  rintro R S hRS code home code' home' ⟨hcode, hhome⟩
  exact ⟨hcode, hhome.mono hRS⟩

namespace Value

theorem Equiv.rule {v v' : Value} (h : v.Equiv v') : v.AlikeBy (Procedure.SameBy Equiv) v' :=
  Bisimilar.rule Procedure.sameBy_monotone h

theorem Equiv.closure {code : Procedure} {home home' : ValueScope}
    (h : ValueScope.AlikeOn (fun w w' => w.Equiv w' ∨ (w = .closure code home ∧ w' = .closure code home'))
      code.freeNames home home') : Equiv (.closure code home) (.closure code home') :=
  Bisimilar.closure Procedure.sameBy_monotone ⟨rfl, h⟩

@[refl] theorem Equiv.refl (v : Value) : v.Equiv v :=
  Bisimilar.refl (fun _ _ => ⟨rfl, .of_eq (fun _ => rfl) fun _ _ => rfl⟩) v

theorem Equiv.render_eq {v v' : Value} (h : v.Equiv v') : v.render = v'.render := by
  cases h.rule with
  | int | bool => rfl
  | closure hcode => rw [render, render, hcode.1]

end Value

theorem ValueScope.AlikeOn.extendRec_equiv {names : Finset String} {scope scope' : ValueScope}
    {f : String} {code : Procedure}
    (h : AlikeOn Value.Equiv ((code.freeNames ∪ names).erase f) scope scope') :
    AlikeOn Value.Equiv names (scope.extendRec f code) (scope'.extendRec f code) := by
  have hcode := h.subset (Finset.erase_subset_erase f Finset.subset_union_left)
  refine (h.subset (Finset.erase_subset_erase f Finset.subset_union_right)).extendRec ?_
  exact .closure ((hcode.mono fun _ _ => .inl).extendRec (.inr ⟨rfl, rfl⟩))

/-! ## Lockstep -/

/-- What is shown of an error: its kind and its message. -/
def RuntimeError.shown (err : RuntimeError) : Kind × String :=
  (err.kind, err.message)

namespace RuntimeError

theorem shown_notInteger (place : IntegerPlace) (v : Value) : (notInteger place v).shown =
    (.typeMismatch, place.render ++ " requires an integer but got " ++ v.render) := rfl

theorem shown_notBoolean (place : GuardPlace) (v : Value) : (notBoolean place v).shown =
    (.typeMismatch, place.render ++ " requires a boolean but got " ++ v.render) := rfl

theorem shown_notProcedure (v : Value) : (notProcedure v).shown =
    (.notProcedure, "call expects proc but got " ++ v.render) := rfl

end RuntimeError

/-- The same expression in two scopes that give equivalent values to its free names. -/
def Expr.SameOnFree (scope : ValueScope) (e : Expr) (scope' : ValueScope) (e' : Expr) : Prop :=
  e = e' ∧ ValueScope.AlikeOn Value.Equiv e.freeNames scope scope'

theorem Expr.SameOnFree.alikeBy {scope scope' : ValueScope} {e e' : Expr}
    (h : SameOnFree scope e scope' e') :
    AlikeBy Value.Equiv RuntimeError.shown SameOnFree scope e scope' e' := by
  obtain ⟨rfl, h⟩ := h
  cases e with
  | number text => exact .number text
  | bool b => exact .bool b
  | negate d => exact .negate ⟨rfl, h⟩
  | subtract d₁ d₂ =>
      exact .subtract ⟨rfl, h.subset Finset.subset_union_left⟩
        ⟨rfl, h.subset Finset.subset_union_right⟩
  | isZero d => exact .isZero ⟨rfl, h⟩
  | ite d d₁ d₂ =>
      have h' := h.subset Finset.subset_union_left
      exact .ite ⟨rfl, h'.subset Finset.subset_union_left⟩ ⟨rfl, h'.subset Finset.subset_union_right⟩
        ⟨rfl, h.subset Finset.subset_union_right⟩
  | identifier x => exact .identifier (h x (Finset.mem_singleton_self x)) rfl
  | letIn x d₁ d₂ =>
      exact .letIn ⟨rfl, h.subset Finset.subset_union_left⟩ fun v v' hv =>
        ⟨rfl, (h.subset Finset.subset_union_right).extend hv⟩
  | proc x t d => exact .proc (.closure (h.mono fun _ _ => .inl))
  | apply d₁ d₂ =>
      exact .apply ⟨rfl, h.subset Finset.subset_union_left⟩
        ⟨rfl, h.subset Finset.subset_union_right⟩
  | letrec t f x s d₁ d₂ => exact .letrec ⟨rfl, .extendRec_equiv h⟩
  | assert d₁ d₂ line =>
      exact .assert ⟨rfl, h.subset Finset.subset_union_left⟩
        ⟨rfl, h.subset Finset.subset_union_right⟩ rfl

theorem lockstep_freeNames : Lockstep Value.Equiv RuntimeError.shown Expr.SameOnFree where
  int := fun n => .refl _
  bool := fun b => .refl _
  value := fun h => h.rule.mono fun code home code' home' hcode v v' hv => by
    obtain ⟨rfl, hhome⟩ := hcode
    exact ⟨rfl, hhome.extend hv⟩
  expr := Expr.SameOnFree.alikeBy
  notInteger := fun place h => by
    rw [RuntimeError.shown_notInteger, RuntimeError.shown_notInteger, h.render_eq]
  notBoolean := fun place h => by
    rw [RuntimeError.shown_notBoolean, RuntimeError.shown_notBoolean, h.render_eq]
  notProcedure := fun h => by
    rw [RuntimeError.shown_notProcedure, RuntimeError.shown_notProcedure, h.render_eq]

/-! ## Given names -/

/-- A scope made from pairs of different names gives each name the item of its pair. -/
theorem Scope.lookup_ofList {α ρ : Type} {pairs : List (String × α)}
    (h : (pairs.map Prod.fst).Nodup) {x : String} {b : Binding α ρ} :
    (ofList pairs).lookup x = some b ↔ ∃ a, (x, a) ∈ pairs ∧ b = .plain a := by
  induction pairs using List.reverseRecOn with
  | nil => simp [ofList]
  | append_singleton pairs p ih =>
      obtain ⟨n, a⟩ := p
      rw [List.map_append, List.nodup_append] at h
      have hlast : (ofList (pairs ++ [(n, a)]) : Scope α ρ) = (ofList pairs).extend n a := by
        simp [ofList]
      rw [hlast]
      by_cases hnx : n = x
      · subst hnx
        have hnew : ∀ a', (n, a') ∉ pairs := fun a' ha' =>
          h.2.2 n (List.mem_map_of_mem ha') n (by simp) rfl
        simp [hnew, eq_comm]
      · rw [lookup_extend_of_ne _ _ hnx, ih h.1]
        simp [Ne.symm hnx]

namespace Given

variable {given given' : List Given}

/-- Two lists that hold the same under a name give it the same item. -/
theorem lookup_congr {α ρ : Type} (item : Given → α) (h : (given.map name).Nodup)
    (h' : (given'.map name).Nodup) {x : String}
    (hsame : ∀ g : Given, g.name = x → (g ∈ given ↔ g ∈ given')) :
    (Scope.ofList (given.map fun g => (g.name, item g)) : Scope α ρ).lookup x =
      (Scope.ofList (given'.map fun g => (g.name, item g))).lookup x := by
  have hpairs : ∀ {l : List Given}, (l.map name).Nodup →
      ((l.map fun g => (g.name, item g)).map Prod.fst).Nodup := fun hl => by rwa [List.map_map]
  ext b
  rw [Scope.lookup_ofList (hpairs h), Scope.lookup_ofList (hpairs h')]
  refine exists_congr fun a => and_congr_left fun _ => ?_
  simp only [List.mem_map, Prod.mk.injEq]
  exact exists_congr fun g => and_congr_left fun hg => hsame g hg.1

theorem value?_congr (h : (given.map name).Nodup) (h' : (given'.map name).Nodup) {x : String}
    (hsame : ∀ g : Given, g.name = x → (g ∈ given ↔ g ∈ given')) :
    (valueScope given).value? x = (valueScope given').value? x := by
  rw [ValueScope.value?, ValueScope.value?, valueScope, valueScope, lookup_congr value h h' hsame]

theorem type?_congr (h : (given.map name).Nodup) (h' : (given'.map name).Nodup) {x : String}
    (hsame : ∀ g : Given, g.name = x → (g ∈ given ↔ g ∈ given')) :
    (tyScope given).type? x = (tyScope given').type? x := by
  rw [TyScope.type?, TyScope.type?, tyScope, tyScope, lookup_congr type h h' hsame]

end Given

/-- What programs come to when nobody can tell them apart: the type and an equivalent value, which is
printed in the same way, or an error that reads the same. -/
inductive Outcome.Alike : Except Failure Outcome → Except Failure Outcome → Prop where
  | value {v v' t} (h : v.Equiv v') (htext : v.render = v'.render) : Alike (.ok ⟨v, t⟩) (.ok ⟨v', t⟩)
  | typing {err} : Alike (.error (.typing err)) (.error (.typing err))
  | runtime {err err'} (h : err.shown = err'.shown) :
      Alike (.error (.runtime err)) (.error (.runtime err'))

/-! ## What evaluation depends on -/

/-- An expression takes the same steps and ends in the same way in any two scopes in which its free names
stand for the same: it comes to equivalent values, or to errors of one kind and message, or to nothing.
So it does not matter to a program in which order names are given to it, and which names are given that
are not free in it. -/
theorem evaluate_freeNames :
    (∀ (e : Expr) (scope scope' : ValueScope),
      (∀ x ∈ e.freeNames, scope.value? x = scope'.value? x) →
      ∀ limits fuel before, Option.Rel (Run.AlikeBy Value.Equiv RuntimeError.shown)
        (evaluate fuel limits scope e before) (evaluate fuel limits scope' e before)) ∧
    ∀ (e : Expr) (given given' : List Given), (given.map Given.name).Nodup →
      (given'.map Given.name).Nodup →
      (∀ g : Given, g.name ∈ e.freeNames → (g ∈ given ↔ g ∈ given')) →
      ∀ limits fuel, Option.Rel Outcome.Alike (e.run fuel limits given) (e.run fuel limits given') := by
  have hlockstep : ∀ (e : Expr) (scope scope' : ValueScope),
      (∀ x ∈ e.freeNames, scope.value? x = scope'.value? x) →
      ∀ limits fuel before, Option.Rel (Run.AlikeBy Value.Equiv RuntimeError.shown)
        (evaluate fuel limits scope e before) (evaluate fuel limits scope' e before) :=
    fun e scope scope' h limits fuel before =>
      lockstep_freeNames.evalFrom limits fuel 1 before ⟨rfl, .of_eq .refl h⟩
  refine ⟨hlockstep, fun e given given' h h' hsame limits fuel => ?_⟩
  have hfree : ∀ x ∈ e.freeNames, ∀ g : Given, g.name = x → (g ∈ given ↔ g ∈ given') :=
    fun x hx g hg => hsame g (hg ▸ hx)
  rw [Expr.run, Expr.run, Expr.typeIn_congr fun x hx => Given.type?_congr h h' (hfree x hx)]
  cases e.typeIn (Given.tyScope given') with
  | error err => exact .some .typing
  | ok t =>
      have hruns := hlockstep e _ _ (fun x hx => Given.value?_congr h h' (hfree x hx)) limits fuel 0
      dsimp only
      generalize evaluate fuel limits (Given.valueScope given) e 0 = run at hruns ⊢
      generalize evaluate fuel limits (Given.valueScope given') e 0 = run' at hruns ⊢
      cases hruns with
      | none => exact .none
      | some hrun =>
          cases hrun with
          | value hv => exact .some (.value hv hv.render_eq)
          | error herr => exact .some (.runtime herr)

/-! ### A closure over one of two names -/

/-- The procedure that takes `y` off its argument. -/
def offProc : Expr := .proc "x" .int (.subtract (.identifier "x") (.identifier "y"))

/-- The scopes differ in a name that is not free, and in a frame that is hidden; the lists in their order
and in a name. -/
theorem offProc_evaluate_freeNames :
    Option.Rel (Run.AlikeBy Value.Equiv RuntimeError.shown)
      (evaluate 1 ⟨none, none⟩ (.extend "x" (.int 7) (.extend "y" (.int 1) .empty)) offProc 0)
      (evaluate 1 ⟨none, none⟩ (.extend "y" (.int 1) (.extend "y" (.bool true) .empty)) offProc 0) ∧
    Option.Rel Outcome.Alike
      (offProc.run 1 ⟨none, none⟩ [⟨"y", .int, .int 1⟩, ⟨"z", .bool, .bool true⟩])
      (offProc.run 1 ⟨none, none⟩ [⟨"w", .int, .int 2⟩, ⟨"y", .int, .int 1⟩]) := by
  have hfree : offProc.freeNames = {"y"} := by decide
  obtain ⟨hscopes, hgiven⟩ := evaluate_freeNames
  refine ⟨hscopes _ _ _ (fun x hx => ?_) _ 1 0,
    hgiven _ _ _ (by decide) (by decide) (fun g hg => ?_) _ 1⟩
  · rw [hfree, Finset.mem_singleton] at hx
    subst hx
    rfl
  · rw [hfree, Finset.mem_singleton] at hg
    constructor
    · intro hmem
      rcases List.mem_pair.1 hmem with rfl | rfl
      · exact List.mem_pair.2 (.inr rfl)
      · exact absurd hg (by decide)
    · intro hmem
      rcases List.mem_pair.1 hmem with rfl | rfl
      · exact absurd hg (by decide)
      · exact List.mem_pair.2 (.inl rfl)

end TypedLet
