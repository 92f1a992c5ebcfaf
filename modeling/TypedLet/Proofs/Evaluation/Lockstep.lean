import TypedLet.Proofs.Evaluation.Refinement

/-!
# Two evaluations in lockstep

Two evaluations run in lockstep when they look at expressions of the same form all along, so that they
count the same steps and end in like ways. Which values are alike, and which expressions in which scopes,
is left open, and so is what is seen of an error. It is enough that like expressions have like parts and
go on with like expressions, and that calls of like closures on like values are alike (`Lockstep`). The
lockstep is shown for a turn first, and for a run by induction on the fuel, whatever the limits are.
-/

theorem Option.Rel.mono {α β : Type} {R S : α → β → Prop} (hRS : ∀ a b, R a b → S a b)
    {o : Option α} {o' : Option β} (h : Option.Rel R o o') : Option.Rel S o o' := by
  cases h with
  | none => exact .none
  | some h => exact .some (hRS _ _ h)

namespace TypedLet

/-- Integers and truth values that are equal, and closures that are related. -/
inductive Value.AlikeBy (R : Procedure → ValueScope → Procedure → ValueScope → Prop) :
    Value → Value → Prop where
  | int (n : Int) : AlikeBy R (.int n) (.int n)
  | bool (b : Bool) : AlikeBy R (.bool b) (.bool b)
  | closure {code home code' home'} (h : R code home code' home') :
      AlikeBy R (.closure code home) (.closure code' home')

theorem Value.AlikeBy.mono {R S : Procedure → ValueScope → Procedure → ValueScope → Prop}
    (hRS : ∀ code home code' home', R code home code' home' → S code home code' home')
    {v v' : Value} (h : v.AlikeBy R v') : v.AlikeBy S v' := by
  cases h with
  | int n => exact .int n
  | bool b => exact .bool b
  | closure h => exact .closure (hRS _ _ _ _ h)

section Relations

variable {β : Type} (V : Value → Value → Prop) (seen : RuntimeError → β)
  (A : ValueScope → Expr → ValueScope → Expr → Prop)

/-- Runs of the same steps that end in like values, or in errors of which the same is seen. -/
inductive Run.AlikeBy : Run → Run → Prop where
  | value {v v' n} (h : V v v') : AlikeBy ⟨.ok v, n⟩ ⟨.ok v', n⟩
  | error {err err' n} (h : seen err = seen err') : AlikeBy ⟨.error err, n⟩ ⟨.error err', n⟩

variable {V seen} in
theorem Run.AlikeBy.mono {W : Value → Value → Prop} (hVW : ∀ v v', V v v' → W v v') {run run' : Run}
    (h : Run.AlikeBy V seen run run') : Run.AlikeBy W seen run run' := by
  cases h with
  | value h => exact .value (hVW _ _ h)
  | error h => exact .error h

/-- Turns that end alike or go on alike. -/
inductive Turn.AlikeBy : Turn → Turn → Prop where
  | ends {run run'} (h : Run.AlikeBy V seen run run') : AlikeBy (.ends run) (.ends run')
  | goesOn {scope e scope' e' n} (h : A scope e scope' e') :
      AlikeBy (.goesOn scope e n) (.goesOn scope' e' n)

/-- Expressions of the same form, in scopes where the parts are alike, and so is what takes the place of
the expressions. -/
inductive Expr.AlikeBy : ValueScope → Expr → ValueScope → Expr → Prop where
  | number {scope scope'} (text : String) : AlikeBy scope (.number text) scope' (.number text)
  | bool {scope scope'} (b : Bool) : AlikeBy scope (.bool b) scope' (.bool b)
  | negate {scope scope' d d'} (h : A scope d scope' d') :
      AlikeBy scope (.negate d) scope' (.negate d')
  | subtract {scope scope' d₁ d₂ d₁' d₂'} (h₁ : A scope d₁ scope' d₁') (h₂ : A scope d₂ scope' d₂') :
      AlikeBy scope (.subtract d₁ d₂) scope' (.subtract d₁' d₂')
  | isZero {scope scope' d d'} (h : A scope d scope' d') :
      AlikeBy scope (.isZero d) scope' (.isZero d')
  | ite {scope scope' d d₁ d₂ d' d₁' d₂'} (h : A scope d scope' d') (h₁ : A scope d₁ scope' d₁')
      (h₂ : A scope d₂ scope' d₂') : AlikeBy scope (.ite d d₁ d₂) scope' (.ite d' d₁' d₂')
  | identifier {scope scope' : ValueScope} {x x'}
      (h : Option.Rel V (scope.value? x) (scope'.value? x'))
      (herr : seen (.unbound x) = seen (.unbound x')) :
      AlikeBy scope (.identifier x) scope' (.identifier x')
  | letIn {scope scope' x x' d₁ d₂ d₁' d₂'} (h₁ : A scope d₁ scope' d₁')
      (h₂ : ∀ v v', V v v' → A (scope.extend x v) d₂ (scope'.extend x' v') d₂') :
      AlikeBy scope (.letIn x d₁ d₂) scope' (.letIn x' d₁' d₂')
  | proc {scope scope' x x' t t' d d'}
      (h : V (.closure ⟨x, t, d⟩ scope) (.closure ⟨x', t', d'⟩ scope')) :
      AlikeBy scope (.proc x t d) scope' (.proc x' t' d')
  | apply {scope scope' d₁ d₂ d₁' d₂'} (h₁ : A scope d₁ scope' d₁') (h₂ : A scope d₂ scope' d₂') :
      AlikeBy scope (.apply d₁ d₂) scope' (.apply d₁' d₂')
  | letrec {scope scope' t t' f f' x x' s s' d₁ d₁' d₂ d₂'}
      (h : A (scope.extendRec f ⟨x, s, d₁⟩) d₂ (scope'.extendRec f' ⟨x', s', d₁'⟩) d₂') :
      AlikeBy scope (.letrec t f x s d₁ d₂) scope' (.letrec t' f' x' s' d₁' d₂')
  | assert {scope scope' d₁ d₁' d₂ d₂' line line'} (h₁ : A scope d₁ scope' d₁')
      (h₂ : A scope d₂ scope' d₂')
      (h : seen (.assertionFailed line) = seen (.assertionFailed line')) :
      AlikeBy scope (.assert d₁ d₂ line) scope' (.assert d₁' d₂' line')

/-- Calls of the two closures on like values go on alike. -/
def CallsAlike (code : Procedure) (home : ValueScope) (code' : Procedure) (home' : ValueScope) : Prop :=
  ∀ v v', V v v' → A (home.extend code.param v) code.body (home'.extend code'.param v') code'.body

/-- What it takes for evaluations of like expressions to run in lockstep. -/
structure Lockstep : Prop where
  int : ∀ n, V (.int n) (.int n)
  bool : ∀ b, V (.bool b) (.bool b)
  value : ∀ {v v'}, V v v' → v.AlikeBy (CallsAlike V A) v'
  expr : ∀ {scope e scope' e'}, A scope e scope' e' → Expr.AlikeBy V seen A scope e scope' e'
  notInteger : ∀ {v v'} place, V v v' → seen (.notInteger place v) = seen (.notInteger place v')
  notBoolean : ∀ {v v'} place, V v v' → seen (.notBoolean place v) = seen (.notBoolean place v')
  notProcedure : ∀ {v v'}, V v v' → seen (.notProcedure v) = seen (.notProcedure v')

/-- What the operation asks of like values gives parts that `P` relates, or the same is seen of its
refusals. -/
structure Demand.Respects {α : Type} (demand : Demand α) (P : α → α → Prop) : Prop where
  parts : ∀ {v v'}, V v v' → Option.Rel P (demand.part? v) (demand.part? v')
  refusals : ∀ {v v'}, V v v' → seen (demand.refusal v) = seen (demand.refusal v')

end Relations

/-! ## What follows runs inside and turns -/

namespace Turn

variable {β : Type} {V : Value → Value → Prop} {seen : RuntimeError → β}
  {A : ValueScope → Expr → ValueScope → Expr → Prop}

theorem withValue_alikeBy {inner inner' : Option Run} (h : Option.Rel (Run.AlikeBy V seen) inner inner')
    {next next' : Value → Nat → Option Turn}
    (hnext : ∀ {v v'} n, V v v' → Option.Rel (AlikeBy V seen A) (next v n) (next' v' n)) :
    Option.Rel (AlikeBy V seen A) (withValue inner next) (withValue inner' next') := by
  cases h with
  | none => exact .none
  | some hrun =>
      cases hrun with
      | value hv => exact hnext _ hv
      | error herr => exact .some (.ends (.error herr))

theorem withPart_alikeBy {α : Type} {demand : Demand α} {P : α → α → Prop}
    (hdemand : demand.Respects V seen P) {inner inner' : Option Run}
    (h : Option.Rel (Run.AlikeBy V seen) inner inner') {next next' : α → Nat → Option Turn}
    (hnext : ∀ {a a'} n, P a a' → Option.Rel (AlikeBy V seen A) (next a n) (next' a' n)) :
    Option.Rel (AlikeBy V seen A) (withPart demand inner next) (withPart demand inner' next') := by
  refine withValue_alikeBy h fun {v v'} n hv => ?_
  have hparts := hdemand.parts hv
  generalize demand.part? v = part at hparts ⊢
  generalize demand.part? v' = part' at hparts ⊢
  cases hparts with
  | none => exact .some (.ends (.error (hdemand.refusals hv)))
  | some ha => exact hnext n ha

theorem run_alikeBy {t t' : Option Turn} (h : Option.Rel (AlikeBy V seen A) t t')
    {rest rest' : Nat → ValueScope → Expr → Option Run}
    (hrest : ∀ {scope e scope' e'} n, A scope e scope' e' →
      Option.Rel (Run.AlikeBy V seen) (rest n scope e) (rest' n scope' e')) :
    Option.Rel (Run.AlikeBy V seen) (run rest t) (run rest' t') := by
  cases h with
  | none => exact .none
  | some ht =>
      cases ht with
      | ends hrun => exact .some hrun
      | goesOn he => exact hrest _ he

end Turn

/-! ## Like expressions -/

namespace Lockstep

variable {β : Type} {V : Value → Value → Prop} {seen : RuntimeError → β}
  {A : ValueScope → Expr → ValueScope → Expr → Prop} (L : Lockstep V seen A)

include L

theorem respects_integer (place : IntegerPlace) : (Demand.integer place).Respects V seen Eq where
  parts := fun h => by
    cases L.value h with
    | int n => exact .some rfl
    | bool | closure => exact .none
  refusals := L.notInteger place

theorem respects_guard (place : GuardPlace) : (Demand.guard place).Respects V seen Eq where
  parts := fun h => by
    cases L.value h with
    | bool b => exact .some rfl
    | int | closure => exact .none
  refusals := L.notBoolean place

theorem respects_procedure :
    Demand.procedure.Respects V seen fun c c' => CallsAlike V A c.1 c.2 c'.1 c'.2 where
  parts := fun h => by
    cases L.value h with
    | int | bool => exact .none
    | closure hcalls => exact .some hcalls
  refusals := L.notProcedure

theorem literal (text : String) (steps : Nat) :
    Run.AlikeBy V seen ⟨Value.ofLiteral text, steps⟩ ⟨Value.ofLiteral text, steps⟩ := by
  by_cases hn : Numeral.isNumeral text = true
  · by_cases hf : Word64.Fits (Numeral.value text)
    · rw [Value.ofLiteral_of_fits hn hf]
      exact .value (L.int _)
    · rw [Value.ofLiteral_of_not_fits hn hf]
      exact .error rfl
  · rw [Value.ofLiteral_of_not_numeral (Bool.not_eq_true _ ▸ hn)]
    exact .error rfl

/-- Turns on like expressions are alike if the runs inside them are. -/
theorem turn {inside inside' : Nat → ValueScope → Expr → Option Run}
    (hin : ∀ {scope e scope' e'} n, A scope e scope' e' →
      Option.Rel (Run.AlikeBy V seen) (inside n scope e) (inside' n scope' e'))
    {scope scope' : ValueScope} {e e' : Expr} (h : A scope e scope' e') (steps : Nat) :
    Option.Rel (Turn.AlikeBy V seen A) (TypedLet.turn inside steps scope e)
      (TypedLet.turn inside' steps scope' e') := by
  cases L.expr h with
  | number text => exact .some (.ends (L.literal text steps))
  | bool => exact .some (.ends (.value (L.bool _)))
  | negate hd =>
      refine Turn.withPart_alikeBy (L.respects_integer _) (hin _ hd) fun n hi => ?_
      cases hi
      exact .some (.ends (.value (L.int _)))
  | subtract h₁ h₂ =>
      refine Turn.withPart_alikeBy (L.respects_integer _) (hin _ h₁) fun n hi => ?_
      refine Turn.withPart_alikeBy (L.respects_integer _) (hin _ h₂) fun n hj => ?_
      cases hi
      cases hj
      exact .some (.ends (.value (L.int _)))
  | isZero hd =>
      refine Turn.withPart_alikeBy (L.respects_integer _) (hin _ hd) fun n hi => ?_
      cases hi
      exact .some (.ends (.value (L.bool _)))
  | ite hd h₁ h₂ =>
      refine Turn.withPart_alikeBy (L.respects_guard _) (hin _ hd) fun {b b'} n hb => ?_
      cases hb
      cases b with
      | true => exact .some (.goesOn h₁)
      | false => exact .some (.goesOn h₂)
  | identifier hx herr =>
      rename_i x x'
      rw [TypedLet.turn, TypedLet.turn]
      generalize scope.value? x = found at hx ⊢
      generalize scope'.value? x' = found' at hx ⊢
      cases hx with
      | none => exact .some (.ends (.error herr))
      | some hv => exact .some (.ends (.value hv))
  | letIn h₁ h₂ => exact Turn.withValue_alikeBy (hin _ h₁) fun n hv => .some (.goesOn (h₂ _ _ hv))
  | proc hv => exact .some (.ends (.value hv))
  | apply h₁ h₂ =>
      refine Turn.withPart_alikeBy L.respects_procedure (hin _ h₁) fun n hcalls => ?_
      exact Turn.withValue_alikeBy (hin _ h₂) fun n hv => .some (.goesOn (hcalls _ _ hv))
  | letrec hrest => exact .some (.goesOn hrest)
  | assert h₁ h₂ herr =>
      refine Turn.withPart_alikeBy (L.respects_guard _) (hin _ h₁) fun {b b'} n hb => ?_
      cases hb
      cases b with
      | true => exact .some (.goesOn h₂)
      | false => exact .some (.ends (.error herr))

/-- Like expressions run in lockstep, under any limits. -/
theorem evalFrom (limits : Limits) (fuel depth before : Nat) {scope scope' : ValueScope} {e e' : Expr}
    (h : A scope e scope' e') :
    Option.Rel (Run.AlikeBy V seen) (evalFrom limits fuel depth before scope e)
      (evalFrom limits fuel depth before scope' e') := by
  induction fuel generalizing depth before scope scope' e e' with
  | zero => exact .none
  | succ fuel ih =>
      cases henter : limits.enter depth before with
      | error run =>
          rw [evalFrom_of_enter_error henter, evalFrom_of_enter_error henter]
          obtain ⟨r, n⟩ := run
          obtain ⟨err, rfl, -⟩ := Limits.enter_error henter
          exact .some (.error rfl)
      | ok steps =>
          rw [evalFrom_of_enter_ok henter, evalFrom_of_enter_ok henter]
          have hturn := L.turn (fun n h => ih (depth + 1) n h) h steps
          exact Turn.run_alikeBy hturn fun n h => ih depth n h

end Lockstep

end TypedLet
