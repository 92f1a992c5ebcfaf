import TypedLet.Evaluation

/-!
# The rules of evaluation

The meaning of an expression without any limit, as a tree of rules: the expressions in last place are
derived like all others. `BigStep scope e r n` says that `e` comes to `r` in `scope` by `n` rules. There
is a rule for each form, and one for each way in which a form fails. A form fails as its first failing
part does, and what it asks of a part is settled before the next part is looked at.
-/

namespace TypedLet

/-- The rules of evaluation, and how many of them a derivation uses. -/
inductive BigStep : ValueScope → Expr → Except RuntimeError Value → Nat → Prop where
  | number {scope text} (hn : Numeral.isNumeral text = true)
      (hf : Word64.Fits (Numeral.value text)) :
      BigStep scope (.number text) (.ok (.int (Numeral.value text))) 1
  | number_overflow {scope text} (hn : Numeral.isNumeral text = true)
      (hf : ¬ Word64.Fits (Numeral.value text)) :
      BigStep scope (.number text) (.error (.overflow text)) 1
  | number_noNumeral {scope text} (hn : Numeral.isNumeral text = false) :
      BigStep scope (.number text) (.error (.noNumeral text)) 1
  | bool {scope b} : BigStep scope (.bool b) (.ok (.bool b)) 1
  | negate {scope e i n} (h : BigStep scope e (.ok (.int i)) n) :
      BigStep scope (.negate e) (.ok (.int (Word64.wrap (-i)))) (n + 1)
  | negate_fails {scope e err n} (h : BigStep scope e (.error err) n) :
      BigStep scope (.negate e) (.error err) (n + 1)
  | negate_refuses {scope e v n} (h : BigStep scope e (.ok v) n) (hv : v.int? = none) :
      BigStep scope (.negate e) (.error (.notInteger .arithmetic v)) (n + 1)
  | subtract {scope e₁ e₂ i j n m} (h₁ : BigStep scope e₁ (.ok (.int i)) n)
      (h₂ : BigStep scope e₂ (.ok (.int j)) m) :
      BigStep scope (.subtract e₁ e₂) (.ok (.int (Word64.wrap (i - j)))) (n + m + 1)
  | subtract_fails_left {scope e₁ e₂ err n} (h : BigStep scope e₁ (.error err) n) :
      BigStep scope (.subtract e₁ e₂) (.error err) (n + 1)
  | subtract_refuses_left {scope e₁ e₂ v n} (h : BigStep scope e₁ (.ok v) n)
      (hv : v.int? = none) :
      BigStep scope (.subtract e₁ e₂) (.error (.notInteger .arithmetic v)) (n + 1)
  | subtract_fails_right {scope e₁ e₂ i err n m} (h₁ : BigStep scope e₁ (.ok (.int i)) n)
      (h₂ : BigStep scope e₂ (.error err) m) :
      BigStep scope (.subtract e₁ e₂) (.error err) (n + m + 1)
  | subtract_refuses_right {scope e₁ e₂ i v n m} (h₁ : BigStep scope e₁ (.ok (.int i)) n)
      (h₂ : BigStep scope e₂ (.ok v) m) (hv : v.int? = none) :
      BigStep scope (.subtract e₁ e₂) (.error (.notInteger .arithmetic v)) (n + m + 1)
  | isZero {scope e i n} (h : BigStep scope e (.ok (.int i)) n) :
      BigStep scope (.isZero e) (.ok (.bool (i == 0))) (n + 1)
  | isZero_fails {scope e err n} (h : BigStep scope e (.error err) n) :
      BigStep scope (.isZero e) (.error err) (n + 1)
  | isZero_refuses {scope e v n} (h : BigStep scope e (.ok v) n) (hv : v.int? = none) :
      BigStep scope (.isZero e) (.error (.notInteger .zeroTest v)) (n + 1)
  | ite_then {scope e e₁ e₂ r n m} (h : BigStep scope e (.ok (.bool true)) n)
      (h₁ : BigStep scope e₁ r m) : BigStep scope (.ite e e₁ e₂) r (n + m + 1)
  | ite_else {scope e e₁ e₂ r n m} (h : BigStep scope e (.ok (.bool false)) n)
      (h₂ : BigStep scope e₂ r m) : BigStep scope (.ite e e₁ e₂) r (n + m + 1)
  | ite_fails {scope e e₁ e₂ err n} (h : BigStep scope e (.error err) n) :
      BigStep scope (.ite e e₁ e₂) (.error err) (n + 1)
  | ite_refuses {scope e e₁ e₂ v n} (h : BigStep scope e (.ok v) n) (hv : v.bool? = none) :
      BigStep scope (.ite e e₁ e₂) (.error (.notBoolean .ofIf v)) (n + 1)
  | identifier {scope : ValueScope} {x v} (hx : scope.value? x = some v) :
      BigStep scope (.identifier x) (.ok v) 1
  | identifier_unbound {scope : ValueScope} {x} (hx : scope.value? x = none) :
      BigStep scope (.identifier x) (.error (.unbound x)) 1
  | letIn {scope x e₁ e₂ v r n m} (h₁ : BigStep scope e₁ (.ok v) n)
      (h₂ : BigStep (scope.extend x v) e₂ r m) : BigStep scope (.letIn x e₁ e₂) r (n + m + 1)
  | letIn_fails {scope x e₁ e₂ err n} (h : BigStep scope e₁ (.error err) n) :
      BigStep scope (.letIn x e₁ e₂) (.error err) (n + 1)
  | proc {scope x t e} : BigStep scope (.proc x t e) (.ok (.closure ⟨x, t, e⟩ scope)) 1
  | apply {scope e₁ e₂ code home v r n m k} (h₁ : BigStep scope e₁ (.ok (.closure code home)) n)
      (h₂ : BigStep scope e₂ (.ok v) m) (h : BigStep (home.extend code.param v) code.body r k) :
      BigStep scope (.apply e₁ e₂) r (n + m + k + 1)
  | apply_fails {scope e₁ e₂ err n} (h : BigStep scope e₁ (.error err) n) :
      BigStep scope (.apply e₁ e₂) (.error err) (n + 1)
  | apply_refuses {scope e₁ e₂ v n} (h : BigStep scope e₁ (.ok v) n) (hv : v.closure? = none) :
      BigStep scope (.apply e₁ e₂) (.error (.notProcedure v)) (n + 1)
  | apply_fails_argument {scope e₁ e₂ code home err n m}
      (h₁ : BigStep scope e₁ (.ok (.closure code home)) n) (h₂ : BigStep scope e₂ (.error err) m) :
      BigStep scope (.apply e₁ e₂) (.error err) (n + m + 1)
  | letrec {scope t f x s e₁ e₂ r n} (h : BigStep (scope.extendRec f ⟨x, s, e₁⟩) e₂ r n) :
      BigStep scope (.letrec t f x s e₁ e₂) r (n + 1)
  | assert {scope e₁ e₂ line r n m} (h₁ : BigStep scope e₁ (.ok (.bool true)) n)
      (h₂ : BigStep scope e₂ r m) : BigStep scope (.assert e₁ e₂ line) r (n + m + 1)
  | assert_fails {scope e₁ e₂ line err n} (h : BigStep scope e₁ (.error err) n) :
      BigStep scope (.assert e₁ e₂ line) (.error err) (n + 1)
  | assert_refuses {scope e₁ e₂ line v n} (h : BigStep scope e₁ (.ok v) n) (hv : v.bool? = none) :
      BigStep scope (.assert e₁ e₂ line) (.error (.notBoolean .ofAssert v)) (n + 1)
  | assert_false {scope e₁ e₂ line n} (h : BigStep scope e₁ (.ok (.bool false)) n) :
      BigStep scope (.assert e₁ e₂ line) (.error (.assertionFailed line)) (n + 1)

end TypedLet
