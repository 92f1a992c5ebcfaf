import TypedLet.Counter
import TypedLet.Evaluation.Error
import TypedLet.Numeral

/-!
# Evaluation

`evalFrom` evaluates an expression in a scope, turn by turn: a turn looks at one expression, and either
ends the evaluation or names the expression that takes its place. Arguments are evaluated before they
are bound, from left to right, and what an operation asks of an operand is checked before the next
operand is looked at. Each turn counts as one step. The runs below carry the number of turns, and what
the counter shows after them is a function of it (`Run.steps`).

The branches of an `if`, the last expression of a `let`, `letrec` or `assert`, and the body of a called
procedure take the place of the expression they belong to. Every other part is evaluated inside it, and
the number of evaluations open at once is the depth. So a loop through calls in last place runs at one
depth, however long it is.

A program may run forever. `fuel` bounds the chain of turns that the definition follows, and `none` says
that it was too small, which is neither a value nor an error.
-/

namespace TypedLet

/-! ## Limits -/

/-- What an evaluation may use. `none` is no bound. -/
structure Limits where
  steps : Option Decimal
  /-- The greatest number of evaluations that are open at once. -/
  depth : Option Nat
  deriving DecidableEq, Repr, Inhabited

namespace Limits

/-- The error of being at this depth, if it is one. -/
def depthError? (limits : Limits) (depth : Nat) : Option RuntimeError :=
  match limits.depth with
  | some most => if most < depth then some .depthLimit else none
  | none => none

/-- The error of what the counter shows after this many turns, if it is one. -/
def stepError? (limits : Limits) (turns : Nat) : Option RuntimeError :=
  match limits.steps with
  | some limit => if limit.floor < Counter.shown turns then some (.stepLimit limit) else none
  | none => none

end Limits

/-! ## Runs and turns -/

/-- How an evaluation ends, and the number of turns by then. It includes those before the evaluation, as
far as the counter showed them. -/
structure Run where
  result : Except RuntimeError Value
  turns : Nat

/-- What the counter of steps shows at the end. -/
def Run.steps (run : Run) : Nat := Counter.shown run.turns

/-- What becomes of an evaluation once it has looked at an expression: it ends, or another expression
takes the place of the one looked at. -/
inductive Turn where
  | ends (run : Run)
  | goesOn (scope : ValueScope) (e : Expr) (turns : Nat)

namespace Turn

@[inline] def done (v : Value) (turns : Nat) : Option Turn := some (.ends ⟨.ok v, turns⟩)

@[inline] def fail (e : RuntimeError) (turns : Nat) : Option Turn := some (.ends ⟨.error e, turns⟩)

/-- Goes on with the value of a run inside; an error there ends the whole. -/
@[inline] def withValue (inner : Option Run) (next : Value → Nat → Option Turn) : Option Turn :=
  match inner with
  | none => none
  | some ⟨.error e, turns⟩ => fail e turns
  | some ⟨.ok v, turns⟩ => next v turns

/-- Goes on with what an operation asks of the value of a run inside. -/
@[inline] def withPart {α : Type} (demand : Demand α) (inner : Option Run)
    (next : α → Nat → Option Turn) : Option Turn :=
  withValue inner fun v turns =>
    match demand.part? v with
    | some a => next a turns
    | none => fail (demand.refusal v) turns

theorem withPart_met {α : Type} {demand : Demand α} {v : Value} {a : α} {turns : Nat}
    {next : α → Nat → Option Turn} (h : demand.part? v = some a) :
    withPart demand (some ⟨.ok v, turns⟩) next = next a turns := by
  simp [withPart, withValue, h]

theorem withPart_refused {α : Type} {demand : Demand α} {v : Value} {turns : Nat}
    {next : α → Nat → Option Turn} (h : demand.part? v = none) :
    withPart demand (some ⟨.ok v, turns⟩) next = fail (demand.refusal v) turns := by
  simp [withPart, withValue, h]

/-- What follows a run inside is its error, or what follows its value. -/
theorem withValue_eq_some_iff {inner : Option Run} {next : Value → Nat → Option Turn} {t : Turn} :
    withValue inner next = some t ↔
      (∃ e turns, inner = some ⟨.error e, turns⟩ ∧ t = .ends ⟨.error e, turns⟩) ∨
        ∃ v turns, inner = some ⟨.ok v, turns⟩ ∧ next v turns = some t := by
  obtain _ | ⟨e | v, turns⟩ := inner
  · simp [withValue]
  · constructor
    · intro h
      simp only [withValue, fail, Option.some.injEq] at h
      exact .inl ⟨e, turns, rfl, h.symm⟩
    · rintro (⟨_, _, h, rfl⟩ | ⟨_, _, h, _⟩)
      · cases h
        rfl
      · cases h
  · constructor
    · intro h
      exact .inr ⟨v, turns, rfl, h⟩
    · rintro (⟨_, _, h, _⟩ | ⟨_, _, h, hn⟩)
      · cases h
      · cases h
        exact hn

/-- What follows a run inside is its error, the refusal of its value, or what follows the part of the
value that is asked for. -/
theorem withPart_eq_some_iff {α : Type} {demand : Demand α} {inner : Option Run}
    {next : α → Nat → Option Turn} {t : Turn} :
    withPart demand inner next = some t ↔
      (∃ e turns, inner = some ⟨.error e, turns⟩ ∧ t = .ends ⟨.error e, turns⟩) ∨
      (∃ v turns, inner = some ⟨.ok v, turns⟩ ∧ demand.part? v = none ∧
        t = .ends ⟨.error (demand.refusal v), turns⟩) ∨
        ∃ v a turns, inner = some ⟨.ok v, turns⟩ ∧ demand.part? v = some a ∧
          next a turns = some t := by
  rw [withPart, withValue_eq_some_iff]
  refine or_congr_right ?_
  constructor
  · rintro ⟨v, turns, hv, h⟩
    cases hp : demand.part? v with
    | none =>
        simp only [hp, fail, Option.some.injEq] at h
        exact .inl ⟨v, turns, hv, hp, h.symm⟩
    | some a =>
        simp only [hp] at h
        exact .inr ⟨v, a, turns, hv, hp, h⟩
  · rintro (⟨v, turns, hv, hp, rfl⟩ | ⟨v, a, turns, hv, hp, h⟩)
    · exact ⟨v, turns, hv, by simp [hp, fail]⟩
    · exact ⟨v, turns, hv, by simp [hp, h]⟩

end Turn

/-- Opens one more expression: its turn is counted, unless a limit ends the run here. -/
@[inline] def Limits.enter (limits : Limits) (depth before : Nat) : Except Run Nat :=
  match limits.depthError? depth with
  | some e => .error ⟨.error e, before⟩
  | none =>
    match limits.stepError? (before + 1) with
    | some e => .error ⟨.error e, before + 1⟩
    | none => .ok (before + 1)

theorem Limits.enter_unlimited (depth before : Nat) :
    (⟨none, none⟩ : Limits).enter depth before = .ok (before + 1) := rfl

/-! ## The evaluator -/

def Value.ofLiteral (text : String) : Except RuntimeError Value :=
  if Numeral.isNumeral text then
    let n := Numeral.value text
    if Word64.Fits n then .ok (.ofInt n) else .error (.overflow text)
  else .error (.noNumeral text)

theorem Value.ofLiteral_of_fits {text : String} (hn : Numeral.isNumeral text = true)
    (hf : Word64.Fits (Numeral.value text)) :
    Value.ofLiteral text = .ok (.int (Numeral.value text)) := by
  rw [Value.ofLiteral, if_pos hn]
  dsimp only
  rw [if_pos hf, Value.ofInt, Word64.wrap_of_fits hf]

theorem Value.ofLiteral_of_not_fits {text : String} (hn : Numeral.isNumeral text = true)
    (hf : ¬ Word64.Fits (Numeral.value text)) : Value.ofLiteral text = .error (.overflow text) := by
  rw [Value.ofLiteral, if_pos hn]
  exact if_neg hf

theorem Value.ofLiteral_of_not_numeral {text : String} (hn : Numeral.isNumeral text = false) :
    Value.ofLiteral text = .error (.noNumeral text) := by
  simp [Value.ofLiteral, hn]

/-- Looks at an expression whose step is counted. `inside` evaluates the parts that take nobody's
place. -/
@[inline] def turn (inside : Nat → ValueScope → Expr → Option Run) (turns : Nat)
    (scope : ValueScope) : Expr → Option Turn
  | .number text => some (.ends ⟨Value.ofLiteral text, turns⟩)
  | .bool b => Turn.done (.bool b) turns
  | .negate operand =>
    Turn.withPart (.integer .arithmetic) (inside turns scope operand)
      fun n turns => Turn.done (.ofInt (-n)) turns
  | .subtract left right =>
    Turn.withPart (.integer .arithmetic) (inside turns scope left) fun m turns =>
      Turn.withPart (.integer .arithmetic) (inside turns scope right)
        fun n turns => Turn.done (.ofInt (m - n)) turns
  | .isZero operand =>
    Turn.withPart (.integer .zeroTest) (inside turns scope operand)
      fun n turns => Turn.done (.bool (n == 0)) turns
  | .ite guard thenBranch elseBranch =>
    Turn.withPart (.guard .ofIf) (inside turns scope guard)
      fun b turns => some (.goesOn scope (if b then thenBranch else elseBranch) turns)
  | .identifier name =>
    match scope.value? name with
    | some v => Turn.done v turns
    | none => Turn.fail (.unbound name) turns
  | .letIn name init body =>
    Turn.withValue (inside turns scope init)
      fun v turns => some (.goesOn (scope.extend name v) body turns)
  | .proc param paramType body => Turn.done (.closure ⟨param, paramType, body⟩ scope) turns
  | .apply fn arg =>
    Turn.withPart .procedure (inside turns scope fn) fun (code, home) turns =>
      Turn.withValue (inside turns scope arg)
        fun v turns => some (.goesOn (home.extend code.param v) code.body turns)
  | .letrec _ name param paramType body letBody =>
    some (.goesOn (scope.extendRec name ⟨param, paramType, body⟩) letBody turns)
  | .assert guard body line =>
    Turn.withPart (.guard .ofAssert) (inside turns scope guard) fun b turns =>
      if b then some (.goesOn scope body turns) else Turn.fail (.assertionFailed line) turns

/-- Evaluates an expression at a depth, after some turns. The evaluations inside run
one deeper, and what takes the place of the expression runs at the same depth. -/
def evalFrom (limits : Limits) : Nat → Nat → Nat → ValueScope → Expr → Option Run
  | 0, _, _, _, _ => none
  | fuel + 1, depth, before, scope, e =>
    match limits.enter depth before with
    | .error run => some run
    | .ok turns =>
      match turn (evalFrom limits fuel (depth + 1)) turns scope e with
      | none => none
      | some (.ends run) => some run
      | some (.goesOn scope e turns) => evalFrom limits fuel depth turns scope e

/-- The run that a turn leads to. `rest` evaluates what takes the place of the expression. -/
def Turn.run (rest : Nat → ValueScope → Expr → Option Run) : Option Turn → Option Run
  | none => none
  | some (.ends run) => some run
  | some (.goesOn scope e turns) => rest turns scope e

theorem evalFrom_of_enter_error {limits : Limits} {fuel depth before : Nat} {run : Run}
    (h : limits.enter depth before = .error run) (scope : ValueScope) (e : Expr) :
    evalFrom limits (fuel + 1) depth before scope e = some run := by
  rw [evalFrom, h]

theorem evalFrom_of_enter_ok {limits : Limits} {fuel depth before turns : Nat}
    (h : limits.enter depth before = .ok turns) (scope : ValueScope) (e : Expr) :
    evalFrom limits (fuel + 1) depth before scope e =
      Turn.run (evalFrom limits fuel depth) (turn (evalFrom limits fuel (depth + 1)) turns scope e) := by
  rw [evalFrom, h]
  rfl

/-- The fuel `2^62`, more than any evaluation uses up that is waited for. -/
def ampleFuel : Nat := 4611686018427387904

/-- Evaluates an expression on its own, as the only one that is open, with a counter that shows `before`
at the start. -/
def evaluate (fuel : Nat) (limits : Limits) (scope : ValueScope) (e : Expr) (before : Nat) :
    Option Run :=
  evalFrom limits fuel 1 before scope e

end TypedLet
