import TypedLet.Evaluation
import TypedLet.Typing

/-!
# Values of a type

A closure has a type when its body is typed in some type scope with which its own scope agrees, that is
when all names that the type scope binds stand there for values of their types. The scope of a recursive
procedure holds that very closure, so the types of values are not told from those of smaller values:
they are the greatest relation that keeps to the rule (`Value.HasType`). To show that a value has a type
it is enough to name a relation that keeps to the rule and holds of the two.
-/

namespace TypedLet

/-- Every name that the type scope binds stands for a value which `R` relates to its type. -/
def ValueScope.AgreesBy (R : Value → Ty → Prop) (scope : ValueScope) (G : TyScope) : Prop :=
  ∀ x t, G.type? x = some t → ∃ v, scope.value? x = some v ∧ R v t

/-- The rule for the types of values, where `R` gives the types of what closures have captured. -/
def Value.HasTypeBy (R : Value → Ty → Prop) : Value → Ty → Prop
  | .int _, .int => True
  | .bool _, .bool => True
  | .closure code home, .arrow domain codomain =>
    code.paramType = domain ∧
      ∃ G : TyScope, ValueScope.AgreesBy R home G ∧
        code.body.typeIn (G.extend code.param domain) = .ok codomain
  | _, _ => False

/-- The value has the type: the greatest relation that keeps to the rule. -/
def Value.HasType (v : Value) (t : Ty) : Prop :=
  ∃ R : Value → Ty → Prop, (∀ w s, R w s → w.HasTypeBy R s) ∧ R v t

/-- Every name that the type scope binds stands for a value of its type. -/
def ValueScope.Agrees (scope : ValueScope) (G : TyScope) : Prop :=
  scope.AgreesBy Value.HasType G

theorem ValueScope.AgreesBy.mono {R S : Value → Ty → Prop} (hRS : ∀ v t, R v t → S v t)
    {scope : ValueScope} {G : TyScope} (h : scope.AgreesBy R G) : scope.AgreesBy S G := by
  intro x t hx
  obtain ⟨v, hv, ht⟩ := h x t hx
  exact ⟨v, hv, hRS v t ht⟩

namespace Value

theorem HasTypeBy.mono {R S : Value → Ty → Prop} (hRS : ∀ v t, R v t → S v t) {v : Value} {t : Ty}
    (h : v.HasTypeBy R t) : v.HasTypeBy S t := by
  cases v <;> cases t
  case int.int | bool.bool => trivial
  case closure.arrow =>
      obtain ⟨hparam, G, hG, hbody⟩ := h
      exact ⟨hparam, G, hG.mono hRS, hbody⟩
  all_goals exact h.elim

theorem HasType.rule {v : Value} {t : Ty} (h : v.HasType t) : v.HasTypeBy HasType t := by
  obtain ⟨R, hR, hv⟩ := h
  exact (hR v t hv).mono fun w s hw => ⟨R, hR, hw⟩

/-- The rule is all that is needed for a type. -/
theorem HasTypeBy.hasType {v : Value} {t : Ty} (h : v.HasTypeBy HasType t) : v.HasType t :=
  ⟨fun w s => w.HasTypeBy HasType s, fun _ _ hw => hw.mono fun _ _ => HasType.rule, h⟩

/-! ## Values by their types -/

theorem hasType_int (n : Int) : (int n).HasType .int :=
  HasTypeBy.hasType trivial

theorem hasType_bool (b : Bool) : (bool b).HasType .bool :=
  HasTypeBy.hasType trivial

theorem hasType_closure {code : Procedure} {home : ValueScope} {G : TyScope} {codomain : Ty}
    (hG : home.Agrees G) (hbody : code.body.typeIn (G.extend code.param code.paramType) = .ok codomain) :
    (closure code home).HasType (.arrow code.paramType codomain) :=
  HasTypeBy.hasType ⟨rfl, G, hG, hbody⟩

theorem HasType.eq_int {v : Value} (h : v.HasType .int) : ∃ n, v = int n := by
  cases v with
  | int n => exact ⟨n, rfl⟩
  | bool b => exact h.rule.elim
  | closure code home => exact h.rule.elim

theorem HasType.eq_bool {v : Value} (h : v.HasType .bool) : ∃ b, v = bool b := by
  cases v with
  | int n => exact h.rule.elim
  | bool b => exact ⟨b, rfl⟩
  | closure code home => exact h.rule.elim

theorem HasType.eq_closure {v : Value} {domain codomain : Ty}
    (h : v.HasType (.arrow domain codomain)) : ∃ code home, v = closure code home := by
  cases v with
  | int n => exact h.rule.elim
  | bool b => exact h.rule.elim
  | closure code home => exact ⟨code, home, rfl⟩

end Value

/-! ## Agreement of scopes -/

namespace ValueScope

variable {scope : ValueScope} {G : TyScope}

theorem agrees_empty (scope : ValueScope) : scope.Agrees .empty :=
  fun x t hx => by simp at hx

theorem AgreesBy.extend {R : Value → Ty → Prop} (h : scope.AgreesBy R G) {x : String} {v : Value}
    {t : Ty} (hv : R v t) : AgreesBy R (scope.extend x v) (G.extend x t) := by
  intro y s hy
  by_cases hxy : x = y
  · subst hxy
    rw [TyScope.type?_extend_self, Option.some.injEq] at hy
    subst hy
    exact ⟨v, value?_extend_self scope x v, hv⟩
  · rw [TyScope.type?_extend_of_ne G t hxy] at hy
    obtain ⟨w, hw, hs⟩ := h y s hy
    exact ⟨w, by rw [value?_extend_of_ne scope v hxy, hw], hs⟩

theorem Agrees.extend (h : scope.Agrees G) {x : String} {v : Value} {t : Ty} (hv : v.HasType t) :
    Agrees (scope.extend x v) (G.extend x t) :=
  AgreesBy.extend h hv

/-- A recursive procedure has the type that is declared for it if its body keeps to that type wherever
the procedure does. The relation that shows it adds the closure itself to the types of values. -/
theorem Agrees.extendRec (h : scope.Agrees G) {f : String} {code : Procedure} {u : Ty}
    (hbody : code.body.typeIn ((G.extend f (.arrow code.paramType u)).extend code.param code.paramType) =
      .ok u) :
    Agrees (scope.extendRec f code) (G.extend f (.arrow code.paramType u)) := by
  let inner : ValueScope := scope.extendRec f code
  let R : Value → Ty → Prop := fun v t =>
    v.HasType t ∨ (v = .closure code inner ∧ t = .arrow code.paramType u)
  have hagrees : AgreesBy R inner (G.extend f (.arrow code.paramType u)) := by
    intro y s hy
    by_cases hfy : f = y
    · subst hfy
      rw [TyScope.type?_extend_self, Option.some.injEq] at hy
      exact ⟨_, value?_extendRec_self scope f code, .inr ⟨rfl, hy.symm⟩⟩
    · rw [TyScope.type?_extend_of_ne G _ hfy] at hy
      obtain ⟨w, hw, hs⟩ := h y s hy
      exact ⟨w, by rw [value?_extendRec_of_ne scope code hfy, hw], .inl hs⟩
  have hR : ∀ v t, R v t → v.HasTypeBy R t := by
    rintro v t (hv | ⟨rfl, rfl⟩)
    · exact hv.rule.mono fun _ _ => .inl
    · exact ⟨rfl, _, hagrees, hbody⟩
  exact hagrees.mono fun v t hv => ⟨R, hR, hv⟩

end ValueScope

end TypedLet
