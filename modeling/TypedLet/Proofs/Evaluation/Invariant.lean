import TypedLet.Proofs.Evaluation.Refinement
import TypedLet.Proofs.Expr.Parts

/-!
# What a turn can do

A turn evaluates some parts of its expression inside (`Opens`), and it depends on no other run. It ends in
an error that such a part ends in, in an error of the form itself (`Expr.Raises`) or in a value, or it
goes on with another expression (`Turn.Arises`). So what every run keeps to is shown in two steps: by the
cases of a turn, and by induction on the fuel (`Invariant`).
-/

namespace TypedLet

/-! ## The parts that a turn evaluates -/

/-- A turn on the expression evaluates the part inside, after this many steps. A second part is evaluated
only after the first one has given what is asked of it. -/
inductive Opens (inside : Nat → ValueScope → Expr → Option Run) (steps : Nat) (scope : ValueScope) :
    Expr → Nat → Expr → Prop where
  | negate {d} : Opens inside steps scope (.negate d) steps d
  | left {d₁ d₂} : Opens inside steps scope (.subtract d₁ d₂) steps d₁
  | right {d₁ d₂ i n} (h : inside steps scope d₁ = some ⟨.ok (.int i), n⟩) :
      Opens inside steps scope (.subtract d₁ d₂) n d₂
  | isZero {d} : Opens inside steps scope (.isZero d) steps d
  | ite {d d₁ d₂} : Opens inside steps scope (.ite d d₁ d₂) steps d
  | letIn {x d₁ d₂} : Opens inside steps scope (.letIn x d₁ d₂) steps d₁
  | operator {d₁ d₂} : Opens inside steps scope (.apply d₁ d₂) steps d₁
  | operand {d₁ d₂ code home n} (h : inside steps scope d₁ = some ⟨.ok (.closure code home), n⟩) :
      Opens inside steps scope (.apply d₁ d₂) n d₂
  | assert {d₁ d₂ line} : Opens inside steps scope (.assert d₁ d₂ line) steps d₁

/-- The parts that take nobody's place, procedures apart. -/
def Expr.inner : Expr → List Expr
  | number _ | bool _ | identifier _ | proc .. | letrec .. => []
  | negate e | isZero e | ite e _ _ | letIn _ e _ | assert e _ _ => [e]
  | subtract e₁ e₂ | apply e₁ e₂ => [e₁, e₂]

theorem Expr.inner_subset_children (e : Expr) : e.inner ⊆ e.children := by
  cases e <;> simp [inner, children]

theorem Opens.mem_inner {inside : Nat → ValueScope → Expr → Option Run} {steps n : Nat}
    {scope : ValueScope} {e d : Expr} (h : Opens inside steps scope e n d) : d ∈ e.inner := by
  cases h <;> simp [Expr.inner]

namespace Turn

theorem withPart_congr {α : Type} {demand : Demand α} {inner : Option Run}
    {next next' : α → Nat → Option Turn}
    (h : ∀ v a n, inner = some ⟨.ok v, n⟩ → demand.part? v = some a → next' a n = next a n) :
    withPart demand inner next' = withPart demand inner next := by
  obtain _ | ⟨_ | v, n⟩ := inner
  · rfl
  · rfl
  · cases hv : demand.part? v with
    | none => rw [withPart_refused hv, withPart_refused hv]
    | some a => rw [withPart_met hv, withPart_met hv, h v a n rfl hv]

end Turn

/-- A turn depends on no run but those of the parts that it opens. -/
theorem turn_congr {inside inside' : Nat → ValueScope → Expr → Option Run} {steps : Nat}
    {scope : ValueScope} {e : Expr}
    (h : ∀ n d, Opens inside steps scope e n d → inside' n scope d = inside n scope d) :
    turn inside' steps scope e = turn inside steps scope e := by
  cases e with
  | number | bool | identifier | proc | letrec => rfl
  | negate d => rw [turn, turn, h _ _ .negate]
  | isZero d => rw [turn, turn, h _ _ .isZero]
  | ite d d₁ d₂ => rw [turn, turn, h _ _ .ite]
  | letIn x d₁ d₂ => rw [turn, turn, h _ _ .letIn]
  | assert d₁ d₂ line => rw [turn, turn, h _ _ .assert]
  | subtract d₁ d₂ =>
      rw [turn, turn, h _ _ .left]
      refine Turn.withPart_congr fun v i n hrun hv => ?_
      cases Value.int?_eq_some_iff.mp hv
      rw [h _ _ (.right hrun)]
  | apply d₁ d₂ =>
      rw [turn, turn, h _ _ .operator]
      refine Turn.withPart_congr fun v part n hrun hv => ?_
      cases Value.closure?_eq_some_iff.mp hv
      rw [h _ _ (.operand hrun)]

/-! ## What a turn comes to -/

/-- An expression of this form can fail in this way by itself, after its parts have been evaluated. -/
inductive Expr.Raises : Expr → RuntimeError → Prop where
  | overflow {text} (hf : ¬ Word64.Fits (Numeral.value text)) : Raises (.number text) (.overflow text)
  | noNumeral {text} (hn : Numeral.isNumeral text = false) : Raises (.number text) (.noNumeral text)
  | negate {d v} (hv : v.int? = none) : Raises (.negate d) (.notInteger .arithmetic v)
  | subtract {d₁ d₂ v} (hv : v.int? = none) : Raises (.subtract d₁ d₂) (.notInteger .arithmetic v)
  | isZero {d v} (hv : v.int? = none) : Raises (.isZero d) (.notInteger .zeroTest v)
  | ite {d d₁ d₂ v} (hv : v.bool? = none) : Raises (.ite d d₁ d₂) (.notBoolean .ofIf v)
  | identifier {x} : Raises (.identifier x) (.unbound x)
  | apply {d₁ d₂ v} (hv : v.closure? = none) : Raises (.apply d₁ d₂) (.notProcedure v)
  | assert {d₁ d₂ line v} (hv : v.bool? = none) : Raises (.assert d₁ d₂ line) (.notBoolean .ofAssert v)
  | assertionFailed {d₁ d₂ line} : Raises (.assert d₁ d₂ line) (.assertionFailed line)

section Turns

variable {inside : Nat → ValueScope → Expr → Option Run} {steps : Nat} {scope : ValueScope}

variable (inside steps scope) in
/-- All that a turn on the expression can come to. -/
inductive Turn.Arises : Expr → Turn → Prop where
  | inner {e d n m err} (hd : Opens inside steps scope e n d)
      (h : inside n scope d = some ⟨.error err, m⟩) : Arises e (.ends ⟨.error err, m⟩)
  | raised {e err n} (h : e.Raises err) : Arises e (.ends ⟨.error err, n⟩)
  | int {e i n} (h : Word64.Fits i) : Arises e (.ends ⟨.ok (.int i), n⟩)
  | bool {e b n} : Arises e (.ends ⟨.ok (.bool b), n⟩)
  | identifier {x v n} (h : scope.value? x = some v) : Arises (.identifier x) (.ends ⟨.ok v, n⟩)
  | proc {x t d n} : Arises (.proc x t d) (.ends ⟨.ok (.closure ⟨x, t, d⟩ scope), n⟩)
  | thenBranch {d d₁ d₂ n} : Arises (.ite d d₁ d₂) (.goesOn scope d₁ n)
  | elseBranch {d d₁ d₂ n} : Arises (.ite d d₁ d₂) (.goesOn scope d₂ n)
  | letIn {x d₁ d₂ v n} (h : inside steps scope d₁ = some ⟨.ok v, n⟩) :
      Arises (.letIn x d₁ d₂) (.goesOn (scope.extend x v) d₂ n)
  | apply {d₁ d₂ code home v n m} (h₁ : inside steps scope d₁ = some ⟨.ok (.closure code home), n⟩)
      (h₂ : inside n scope d₂ = some ⟨.ok v, m⟩) :
      Arises (.apply d₁ d₂) (.goesOn (home.extend code.param v) code.body m)
  | letrec {t f x s d₁ d₂ n} :
      Arises (.letrec t f x s d₁ d₂) (.goesOn (scope.extendRec f ⟨x, s, d₁⟩) d₂ n)
  | assert {d₁ d₂ line n} : Arises (.assert d₁ d₂ line) (.goesOn scope d₂ n)

namespace Turn

theorem arises_of_withValue {e d : Expr} {n : Nat} {next : Value → Nat → Option Turn} {t : Turn}
    (h : withValue (inside n scope d) next = some t) (hd : Opens inside steps scope e n d)
    (hnext : ∀ v m, inside n scope d = some ⟨.ok v, m⟩ → next v m = some t →
      t.Arises inside steps scope e) : t.Arises inside steps scope e := by
  rcases withValue_eq_some_iff.mp h with ⟨err, m, hrun, rfl⟩ | ⟨v, m, hrun, h⟩
  · exact .inner hd hrun
  · exact hnext v m hrun h

theorem arises_of_withPart {α : Type} {demand : Demand α} {e d : Expr} {n : Nat}
    {next : α → Nat → Option Turn} {t : Turn} (h : withPart demand (inside n scope d) next = some t)
    (hd : Opens inside steps scope e n d)
    (hrefusal : ∀ v, demand.part? v = none → e.Raises (demand.refusal v))
    (hnext : ∀ v a m, inside n scope d = some ⟨.ok v, m⟩ → demand.part? v = some a →
      next a m = some t → t.Arises inside steps scope e) : t.Arises inside steps scope e := by
  rcases withPart_eq_some_iff.mp h with
    ⟨err, m, hrun, rfl⟩ | ⟨v, m, hrun, hv, rfl⟩ | ⟨v, a, m, hrun, hv, h⟩
  · exact .inner hd hrun
  · exact .raised (hrefusal v hv)
  · exact hnext v a m hrun hv h

theorem arises {e : Expr} {t : Turn} (h : turn inside steps scope e = some t) :
    t.Arises inside steps scope e := by
  cases e with
  | number text =>
      cases h
      by_cases hn : Numeral.isNumeral text = true
      · by_cases hf : Word64.Fits (Numeral.value text)
        · rw [Value.ofLiteral_of_fits hn hf]
          exact .int hf
        · rw [Value.ofLiteral_of_not_fits hn hf]
          exact .raised (.overflow hf)
      · rw [Bool.not_eq_true] at hn
        rw [Value.ofLiteral_of_not_numeral hn]
        exact .raised (.noNumeral hn)
  | bool b =>
      cases h
      exact .bool
  | negate d =>
      refine arises_of_withPart h .negate (fun _ => .negate) fun _ i m _ _ h => ?_
      cases h
      exact .int (Word64.fits_wrap _)
  | subtract d₁ d₂ =>
      refine arises_of_withPart h .left (fun _ => .subtract) fun v i m hrun hv h => ?_
      cases Value.int?_eq_some_iff.mp hv
      refine arises_of_withPart h (.right hrun) (fun _ => .subtract) fun _ j m _ _ h => ?_
      cases h
      exact .int (Word64.fits_wrap _)
  | isZero d =>
      refine arises_of_withPart h .isZero (fun _ => .isZero) fun _ i m _ _ h => ?_
      cases h
      exact .bool
  | ite d d₁ d₂ =>
      refine arises_of_withPart h .ite (fun _ => .ite) fun _ b m _ _ h => ?_
      cases h
      cases b with
      | true => exact .thenBranch
      | false => exact .elseBranch
  | identifier x =>
      simp only [turn] at h
      cases hx : scope.value? x with
      | none =>
          rw [hx] at h
          cases h
          exact .raised .identifier
      | some v =>
          rw [hx] at h
          cases h
          exact .identifier hx
  | letIn x d₁ d₂ =>
      refine arises_of_withValue h .letIn fun v m hrun h => ?_
      cases h
      exact .letIn hrun
  | proc x t d =>
      cases h
      exact .proc
  | apply d₁ d₂ =>
      refine arises_of_withPart h .operator (fun _ => .apply) fun v part m hrun hv h => ?_
      cases Value.closure?_eq_some_iff.mp hv
      refine arises_of_withValue h (.operand hrun) fun w m hrun₂ h => ?_
      cases h
      exact .apply hrun hrun₂
  | letrec t f x s d₁ d₂ =>
      cases h
      exact .letrec
  | assert d₁ d₂ line =>
      refine arises_of_withPart h .assert (fun _ => .assert) fun _ b m _ _ h => ?_
      cases b with
      | true =>
          cases h
          exact .assert
      | false =>
          cases h
          exact .raised .assertionFailed

end Turn

end Turns

/-! ## Invariants -/

/-- A property of expressions that passes to parts, and properties of scopes and of values that nothing
which an evaluation makes breaks. -/
structure Invariant (p : Expr → Prop) (S : ValueScope → Prop) (V : Value → Prop) : Prop where
  hereditary : Expr.Hereditary p
  int : ∀ {n}, Word64.Fits n → V (.int n)
  bool : ∀ b, V (.bool b)
  closure : ∀ {code home}, V (.closure code home) ↔ p code.body ∧ S home
  value? : ∀ {scope : ValueScope} {x v}, S scope → scope.value? x = some v → V v
  extend : ∀ {scope : ValueScope} {v}, S scope → V v → ∀ x, S (scope.extend x v)
  extendRec : ∀ {scope : ValueScope} {code}, S scope → p code.body → ∀ f, S (scope.extendRec f code)

/-- The turn ends in an error or in a value with the property, or goes on with an expression and a scope
that have theirs. -/
def Turn.Keeps (p : Expr → Prop) (S : ValueScope → Prop) (V : Value → Prop) : Turn → Prop
  | .ends run => ∀ v, run.result = .ok v → V v
  | .goesOn scope e _ => p e ∧ S scope

namespace Invariant

variable {p : Expr → Prop} {S : ValueScope → Prop} {V : Value → Prop} (I : Invariant p S V)

include I

theorem turn {inside : Nat → ValueScope → Expr → Option Run}
    (hin : ∀ {n scope d v m}, inside n scope d = some ⟨.ok v, m⟩ → p d → S scope → V v) {steps : Nat}
    {scope : ValueScope} {e : Expr} {t : Turn} (h : TypedLet.turn inside steps scope e = some t)
    (he : p e) (hscope : S scope) : t.Keeps p S V := by
  have hpart : ∀ d ∈ e.children, p d := I.hereditary e he
  cases Turn.arises h with
  | inner | raised => exact fun v hv => nomatch hv
  | int hi =>
      rintro _ ⟨⟩
      exact I.int hi
  | bool =>
      rintro _ ⟨⟩
      exact I.bool _
  | identifier hx =>
      rintro _ ⟨⟩
      exact I.value? hscope hx
  | proc =>
      rintro _ ⟨⟩
      exact I.closure.2 ⟨hpart _ (by simp [Expr.children]), hscope⟩
  | thenBranch | elseBranch | assert => exact ⟨hpart _ (by simp [Expr.children]), hscope⟩
  | letIn hrun =>
      have hv := hin hrun (hpart _ (by simp [Expr.children])) hscope
      exact ⟨hpart _ (by simp [Expr.children]), I.extend hscope hv _⟩
  | apply hrun₁ hrun₂ =>
      have hclosure := hin hrun₁ (hpart _ (by simp [Expr.children])) hscope
      have hv := hin hrun₂ (hpart _ (by simp [Expr.children])) hscope
      obtain ⟨hbody, hhome⟩ := I.closure.1 hclosure
      exact ⟨hbody, I.extend hhome hv _⟩
  | letrec =>
      have hbody := hpart _ List.mem_cons_self
      exact ⟨hpart _ (by simp [Expr.children]), I.extendRec hscope hbody _⟩

/-- The value that an evaluation gives has its property, whatever the limits are. -/
theorem evalFrom {limits : Limits} {fuel depth before : Nat} {scope : ValueScope} {e : Expr} {v : Value}
    {n : Nat} (h : evalFrom limits fuel depth before scope e = some ⟨.ok v, n⟩) (he : p e)
    (hscope : S scope) : V v := by
  induction fuel generalizing depth before scope e v n with
  | zero => cases h
  | succ fuel ih =>
      cases Run.arises h with
      | stopped henter =>
          obtain ⟨_, ⟨⟩, -⟩ := Limits.enter_error henter
      | ends _ ht => exact I.turn ih ht he hscope v rfl
      | goesOn _ ht hrest =>
          obtain ⟨he', hscope'⟩ := I.turn ih ht he hscope
          exact ih hrest he' hscope'

end Invariant

end TypedLet
