import TypedLet.Proofs.Evaluation.Lockstep

/-!
# Bisimilar values

Two runs in lockstep make closures in different scopes, and these scopes lead to further closures. So a
relation on values is given by a rule for closures, which may ask how the scopes of two closures are
related in turn. The scope of a recursive procedure holds the very closure that is asked about, so the
values that a rule takes for alike are those of the greatest relation that keeps to it.

Scopes are related along a correspondence, which says what names of the one stand for the same as what
names of the other.
-/

namespace TypedLet

/-! ## Scopes along a correspondence of names -/

/-- Which names of one expression stand for the same as which names of another. -/
def Correspondence : Type := String → String → Prop

/-- The correspondence behind two binders: the bound names correspond to one another and hide the names
that they are equal to. -/
def Correspondence.bind (N : Correspondence) (x x' : String) : Correspondence :=
  fun y y' => (x = y ∧ x' = y') ∨ (x ≠ y ∧ x' ≠ y' ∧ N y y')

theorem Correspondence.bind_self {N : Correspondence} {x y : String} (h : x ≠ y → N y y) :
    N.bind x x y y := by
  by_cases hxy : x = y
  · exact .inl ⟨hxy, hxy⟩
  · exact .inr ⟨hxy, hxy, h hxy⟩

/-- Names that correspond stand for values that `R` relates, or for nothing. -/
def ValueScope.AlikeAlong (R : Value → Value → Prop) (N : Correspondence) (scope scope' : ValueScope) :
    Prop :=
  ∀ x x', N x x' → Option.Rel R (scope.value? x) (scope'.value? x')

namespace ValueScope.AlikeAlong

variable {R S : Value → Value → Prop} {N M : Correspondence} {scope scope' : ValueScope}

theorem mono (hRS : ∀ v v', R v v' → S v v') (h : AlikeAlong R N scope scope') :
    AlikeAlong S N scope scope' :=
  fun x x' hx => (h x x' hx).mono hRS

theorem of_imp (h : AlikeAlong R N scope scope') (hMN : ∀ x x', M x x' → N x x') :
    AlikeAlong R M scope scope' :=
  fun x x' hx => h x x' (hMN x x' hx)

theorem refl (hR : ∀ v, R v v) (scope : ValueScope) : AlikeAlong R Eq scope scope := by
  rintro x _ rfl
  cases scope.value? x with
  | none => exact .none
  | some v => exact .some (hR v)

theorem extend {v v' : Value} (h : AlikeAlong R N scope scope') (hv : R v v') (x x' : String) :
    AlikeAlong R (N.bind x x') (scope.extend x v) (scope'.extend x' v') := by
  rintro y y' (⟨rfl, rfl⟩ | ⟨hx, hx', hy⟩)
  · rw [value?_extend_self, value?_extend_self]
    exact .some hv
  · rw [value?_extend_of_ne scope v hx, value?_extend_of_ne scope' v' hx']
    exact h y y' hy

theorem extendRec {f f' : String} {code code' : Procedure} (h : AlikeAlong R N scope scope')
    (hcode : R (.closure code (scope.extendRec f code)) (.closure code' (scope'.extendRec f' code'))) :
    AlikeAlong R (N.bind f f') (scope.extendRec f code) (scope'.extendRec f' code') := by
  rintro y y' (⟨rfl, rfl⟩ | ⟨hf, hf', hy⟩)
  · rw [value?_extendRec_self, value?_extendRec_self]
    exact .some hcode
  · rw [value?_extendRec_of_ne scope code hf, value?_extendRec_of_ne scope' code' hf']
    exact h y y' hy

end ValueScope.AlikeAlong

/-! ## Rules for closures -/

/-- What it takes for two closures to be alike, given what values are. -/
def ClosureRule : Type :=
  (Value → Value → Prop) → Procedure → ValueScope → Procedure → ValueScope → Prop

/-- The rule asks for no values to be told apart. -/
def ClosureRule.Monotone (C : ClosureRule) : Prop :=
  ∀ {R S : Value → Value → Prop}, (∀ v v', R v v' → S v v') → ∀ {code home code' home'},
    C R code home code' home' → C S code home code' home'

/-- Some relation that keeps to the rule for closures relates the values. -/
def Value.Bisimilar (C : ClosureRule) (v v' : Value) : Prop :=
  ∃ R : Value → Value → Prop, (∀ w w', R w w' → w.AlikeBy (C R) w') ∧ R v v'

namespace Value.Bisimilar

variable {C : ClosureRule} {v v' : Value}

theorem refl (h : ∀ code home, C Eq code home code home) (v : Value) : Bisimilar C v v := by
  refine ⟨Eq, ?_, rfl⟩
  rintro w _ rfl
  cases w with
  | int n => exact .int n
  | bool b => exact .bool b
  | closure code home => exact .closure (h code home)

variable (hC : C.Monotone)

include hC

/-- Bisimilarity keeps to the rule itself. -/
theorem rule (h : Bisimilar C v v') : v.AlikeBy (C (Bisimilar C)) v' := by
  obtain ⟨R, hR, hv⟩ := h
  exact (hR v v' hv).mono fun _ _ _ _ => hC fun w w' hw => ⟨R, hR, hw⟩

/-- Two closures are bisimilar if they are alike by the rule, where they may be taken for alike already:
the relation that shows it adds the two to the bisimilar values. -/
theorem closure {code code' : Procedure} {home home' : ValueScope}
    (h : C (fun w w' => Bisimilar C w w' ∨ (w = .closure code home ∧ w' = .closure code' home'))
      code home code' home') : Bisimilar C (.closure code home) (.closure code' home') := by
  let R : Value → Value → Prop := fun w w' =>
    Bisimilar C w w' ∨ (w = .closure code home ∧ w' = .closure code' home')
  refine ⟨R, ?_, .inr ⟨rfl, rfl⟩⟩
  rintro w w' (hw | ⟨rfl, rfl⟩)
  · exact (hw.rule hC).mono fun _ _ _ _ => hC fun _ _ => .inl
  · exact .closure h

end Value.Bisimilar

end TypedLet
