import TypedLet.Proofs.Evaluation.Reachable
import TypedLet.Proofs.Evaluation.Refinement
import TypedLet.Proofs.Typing.Agreement
import TypedLet.Proofs.Typing.Inversion

/-!
# Soundness of types

An expression that has a type evaluates to a value of that type, or ends with one of the errors that no
type rules out, or runs on. The induction is over the derivation of the run and not over the expression,
since a call goes on with a body from elsewhere. What it carries is that the scope agrees with the
types of the expression at hand. Literals are checked by no type, so their texts are asked to be
numerals, in the expression and in all bodies that its scope leads to.
-/

namespace TypedLet

/-! ## Literals -/

/-- Every number literal of the expression is a numeral. -/
def Expr.allNumerals : Expr → Bool
  | number text => Numeral.isNumeral text
  | bool _ | identifier _ => true
  | negate e | isZero e | proc _ _ e => e.allNumerals
  | subtract e₁ e₂ | letIn _ e₁ e₂ | apply e₁ e₂ | letrec _ _ _ _ e₁ e₂ | assert e₁ e₂ _ =>
    e₁.allNumerals && e₂.allNumerals
  | ite e₁ e₂ e₃ => e₁.allNumerals && e₂.allNumerals && e₃.allNumerals

theorem Expr.hereditary_allNumerals : Expr.Hereditary (·.allNumerals = true) := by
  intro e he d hd
  cases e <;> simp_all [Expr.children, Expr.allNumerals]
  case ite => rcases hd with rfl | rfl | rfl <;> simp [he]
  all_goals rcases hd with rfl | rfl <;> simp [he]

/-! ## Derivations -/

/-- What an expression of this type can come to when nothing limits it. -/
def Ty.Admits (t : Ty) : Except RuntimeError Value → Prop
  | .ok v => v.HasType t
  | .error err => err.kind = .overflow ∨ err.kind = .assertionFailed

theorem Ty.Admits.of_error {s t : Ty} {err : RuntimeError} (h : s.Admits (.error err)) :
    t.Admits (.error err) := h

theorem BigStep.admitted {scope : ValueScope} {e : Expr} {r : Except RuntimeError Value} {n : Nat}
    (h : BigStep scope e r n) {G : TyScope} {t : Ty} (ht : e.typeIn G = .ok t)
    (hG : scope.Agrees G) (he : e.allNumerals = true)
    (hscope : scope.Bodies (·.allNumerals = true)) : t.Admits r := by
  induction h generalizing G t with
  | number =>
      cases Expr.typeIn_number.mp ht
      exact Value.hasType_int _
  | number_overflow => exact .inl rfl
  | number_noNumeral hn =>
      rw [Expr.allNumerals, hn] at he
      cases he
  | bool =>
      cases Expr.typeIn_bool.mp ht
      exact Value.hasType_bool _
  | negate _ _ =>
      obtain ⟨_, rfl⟩ := Expr.typeIn_negate.mp ht
      exact Value.hasType_int _
  | negate_fails _ ih =>
      obtain ⟨hd, rfl⟩ := Expr.typeIn_negate.mp ht
      exact (ih hd hG he hscope).of_error
  | negate_refuses _ hv ih =>
      obtain ⟨hd, rfl⟩ := Expr.typeIn_negate.mp ht
      obtain ⟨i, rfl⟩ := (ih hd hG he hscope).eq_int
      cases hv
  | subtract _ _ _ _ =>
      obtain ⟨_, _, rfl⟩ := Expr.typeIn_subtract.mp ht
      exact Value.hasType_int _
  | subtract_fails_left _ ih =>
      obtain ⟨h₁, _, rfl⟩ := Expr.typeIn_subtract.mp ht
      rw [Expr.allNumerals, Bool.and_eq_true] at he
      exact (ih h₁ hG he.1 hscope).of_error
  | subtract_refuses_left _ hv ih =>
      obtain ⟨h₁, _, rfl⟩ := Expr.typeIn_subtract.mp ht
      rw [Expr.allNumerals, Bool.and_eq_true] at he
      obtain ⟨i, rfl⟩ := (ih h₁ hG he.1 hscope).eq_int
      cases hv
  | subtract_fails_right _ _ _ ih =>
      obtain ⟨_, h₂, rfl⟩ := Expr.typeIn_subtract.mp ht
      rw [Expr.allNumerals, Bool.and_eq_true] at he
      exact (ih h₂ hG he.2 hscope).of_error
  | subtract_refuses_right _ _ hv _ ih =>
      obtain ⟨_, h₂, rfl⟩ := Expr.typeIn_subtract.mp ht
      rw [Expr.allNumerals, Bool.and_eq_true] at he
      obtain ⟨i, rfl⟩ := (ih h₂ hG he.2 hscope).eq_int
      cases hv
  | isZero _ _ =>
      obtain ⟨_, rfl⟩ := Expr.typeIn_isZero.mp ht
      exact Value.hasType_bool _
  | isZero_fails _ ih =>
      obtain ⟨hd, rfl⟩ := Expr.typeIn_isZero.mp ht
      exact (ih hd hG he hscope).of_error
  | isZero_refuses _ hv ih =>
      obtain ⟨hd, rfl⟩ := Expr.typeIn_isZero.mp ht
      obtain ⟨i, rfl⟩ := (ih hd hG he hscope).eq_int
      cases hv
  | ite_then _ _ _ ih =>
      obtain ⟨_, h₁, _⟩ := Expr.typeIn_ite.mp ht
      rw [Expr.allNumerals, Bool.and_eq_true, Bool.and_eq_true] at he
      exact ih h₁ hG he.1.2 hscope
  | ite_else _ _ _ ih =>
      obtain ⟨_, _, h₂⟩ := Expr.typeIn_ite.mp ht
      rw [Expr.allNumerals, Bool.and_eq_true, Bool.and_eq_true] at he
      exact ih h₂ hG he.2 hscope
  | ite_fails _ ih =>
      obtain ⟨hd, _, _⟩ := Expr.typeIn_ite.mp ht
      rw [Expr.allNumerals, Bool.and_eq_true, Bool.and_eq_true] at he
      exact (ih hd hG he.1.1 hscope).of_error
  | ite_refuses _ hv ih =>
      obtain ⟨hd, _, _⟩ := Expr.typeIn_ite.mp ht
      rw [Expr.allNumerals, Bool.and_eq_true, Bool.and_eq_true] at he
      obtain ⟨b, rfl⟩ := (ih hd hG he.1.1 hscope).eq_bool
      cases hv
  | identifier hx =>
      obtain ⟨v, hv, hvt⟩ := hG _ _ (Expr.typeIn_identifier.mp ht)
      rw [hx, Option.some.injEq] at hv
      rw [hv]
      exact hvt
  | identifier_unbound hx =>
      obtain ⟨v, hv, _⟩ := hG _ _ (Expr.typeIn_identifier.mp ht)
      rw [hx] at hv
      cases hv
  | letIn hd₁ _ ih₁ ih₂ =>
      obtain ⟨s, h₁, h₂⟩ := Expr.typeIn_letIn.mp ht
      rw [Expr.allNumerals, Bool.and_eq_true] at he
      have hv := ih₁ h₁ hG he.1 hscope
      have hbodies := hd₁.bodies Expr.hereditary_allNumerals he.1 hscope _ rfl
      exact ih₂ h₂ (hG.extend hv) he.2 (hscope.extend hbodies)
  | letIn_fails _ ih =>
      obtain ⟨s, h₁, _⟩ := Expr.typeIn_letIn.mp ht
      rw [Expr.allNumerals, Bool.and_eq_true] at he
      exact (ih h₁ hG he.1 hscope).of_error
  | proc =>
      obtain ⟨u, hbody, rfl⟩ := Expr.typeIn_proc.mp ht
      exact Value.hasType_closure hG hbody
  | apply hd₁ hd₂ _ ih₁ ih₂ ih =>
      obtain ⟨s, h₁, h₂⟩ := Expr.typeIn_apply.mp ht
      rw [Expr.allNumerals, Bool.and_eq_true] at he
      -- The body is typed where its closure was made, so the scope of the call is built on that one.
      obtain ⟨rfl, H, hH, hbody⟩ := (ih₁ h₁ hG he.1 hscope).rule
      have hv := ih₂ h₂ hG he.2 hscope
      obtain ⟨hcode, hhome⟩ := hd₁.bodies Expr.hereditary_allNumerals he.1 hscope _ rfl
      have hbodies := hd₂.bodies Expr.hereditary_allNumerals he.2 hscope _ rfl
      exact ih hbody (ValueScope.Agrees.extend hH hv) hcode (hhome.extend hbodies)
  | apply_fails _ ih =>
      obtain ⟨s, h₁, _⟩ := Expr.typeIn_apply.mp ht
      rw [Expr.allNumerals, Bool.and_eq_true] at he
      exact (ih h₁ hG he.1 hscope).of_error
  | apply_refuses _ hv ih =>
      obtain ⟨s, h₁, _⟩ := Expr.typeIn_apply.mp ht
      rw [Expr.allNumerals, Bool.and_eq_true] at he
      obtain ⟨code, home, rfl⟩ := (ih h₁ hG he.1 hscope).eq_closure
      cases hv
  | apply_fails_argument _ _ _ ih =>
      obtain ⟨s, _, h₂⟩ := Expr.typeIn_apply.mp ht
      rw [Expr.allNumerals, Bool.and_eq_true] at he
      exact (ih h₂ hG he.2 hscope).of_error
  | letrec _ ih =>
      obtain ⟨h₁, h₂⟩ := Expr.typeIn_letrec.mp ht
      rw [Expr.allNumerals, Bool.and_eq_true] at he
      exact ih h₂ (hG.extendRec h₁) he.2 (hscope.extendRec he.1)
  | assert _ _ _ ih =>
      obtain ⟨_, h₂⟩ := Expr.typeIn_assert.mp ht
      rw [Expr.allNumerals, Bool.and_eq_true] at he
      exact ih h₂ hG he.2 hscope
  | assert_fails _ ih =>
      obtain ⟨h₁, _⟩ := Expr.typeIn_assert.mp ht
      rw [Expr.allNumerals, Bool.and_eq_true] at he
      exact (ih h₁ hG he.1 hscope).of_error
  | assert_refuses _ hv ih =>
      obtain ⟨h₁, _⟩ := Expr.typeIn_assert.mp ht
      rw [Expr.allNumerals, Bool.and_eq_true] at he
      obtain ⟨b, rfl⟩ := (ih h₁ hG he.1 hscope).eq_bool
      cases hv
  | assert_false => exact .inr rfl

/-! ## Runs -/

/-- An expression of a type never meets a name that stands for nothing, a call of no procedure or a value
of the wrong kind: whenever it ends, under whatever limits, it is in a value of the type or in one of the
errors that no type rules out. -/
theorem evaluate_hasType {G : TyScope} {scope : ValueScope} {e : Expr} {t : Ty}
    (ht : e.typeIn G = .ok t) (hG : scope.Agrees G) (he : e.allNumerals = true)
    (hscope : scope.Bodies (·.allNumerals = true)) (limits : Limits) (fuel before : Nat) (run : Run)
    (hrun : evaluate fuel limits scope e before = some run) :
    (∃ v, run.result = .ok v ∧ v.HasType t) ∨
      ∃ err, run.result = .error err ∧
        err.kind ∈ [.overflow, .assertionFailed, .stepLimit, .depthLimit] := by
  rcases evalFrom_follows hrun with ⟨n, _, hd⟩ | ⟨err, herr, hstop⟩
  · have hadmits := hd.admitted ht hG he hscope
    cases hr : run.result with
    | ok v =>
        rw [hr] at hadmits
        exact .inl ⟨v, rfl, hadmits⟩
    | error err =>
        rw [hr] at hadmits
        rcases hadmits with hkind | hkind <;> exact .inr ⟨err, rfl, by simp [hkind]⟩
  · refine .inr ⟨err, herr, ?_⟩
    cases err with
    | stepLimit limit => simp [RuntimeError.kind]
    | depthLimit => simp [RuntimeError.kind]
    | _ => exact hstop.elim

/-! ### A recursive procedure as a given value -/

/-- A procedure that calls the name `f` until its parameter is zero. -/
def countdown : Procedure :=
  ⟨"n", .int, .ite (.isZero (.identifier "n")) (.number "0")
    (.apply (.identifier "f") (.subtract (.identifier "n") (.number "1")))⟩

def countdownTypes : TyScope := .extend "f" (.arrow .int .int) .empty

def countdownScope : ValueScope := .extendRec "f" countdown .empty

theorem countdown_evaluate_hasType :
    countdownScope.Agrees countdownTypes ∧
      evaluate 30 ⟨none, none⟩ countdownScope (.apply (.identifier "f") (.number "2")) 0 =
        some ⟨.ok (.int 0), 23⟩ ∧
      ((∃ v, (Except.ok (.int 0) : Except RuntimeError Value) = .ok v ∧ v.HasType .int) ∨
        ∃ err, (Except.ok (.int 0) : Except RuntimeError Value) = .error err ∧
          err.kind ∈ [.overflow, .assertionFailed, .stepLimit, .depthLimit]) := by
  have hG : countdownScope.Agrees countdownTypes := (ValueScope.agrees_empty .empty).extendRec rfl
  have hscope : countdownScope.Bodies (·.allNumerals = true) := ValueScope.bodies_empty.extendRec rfl
  have hrun : evaluate 30 ⟨none, none⟩ countdownScope (.apply (.identifier "f") (.number "2")) 0 =
      some ⟨.ok (.int 0), 23⟩ := by rfl
  exact ⟨hG, hrun, evaluate_hasType rfl hG rfl hscope ⟨none, none⟩ 30 0 _ hrun⟩

end TypedLet
