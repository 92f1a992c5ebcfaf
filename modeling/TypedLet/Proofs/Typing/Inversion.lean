import TypedLet.Typing

/-!
# What a type says about the parts

One statement for each form: when the form has a type, and which types its parts have then.
-/

namespace TypedLet

/-- A chain has a result when its first part has one from which the rest has one. -/
theorem except_bind_eq_ok {α β : Type} {x : Except TypeError α} {f : α → Except TypeError β} {b : β} :
    (x >>= f) = .ok b ↔ ∃ a, x = .ok a ∧ f a = .ok b := by
  constructor
  · intro h
    cases x with
    | error err => cases h
    | ok a => exact ⟨a, rfl, h⟩
  · rintro ⟨a, rfl, h⟩
    exact h

/-- A chain fails as its first part does, or as the rest does after it. -/
theorem except_bind_eq_error {α β : Type} {x : Except TypeError α} {f : α → Except TypeError β}
    {err : TypeError} :
    (x >>= f) = .error err ↔ x = .error err ∨ ∃ a, x = .ok a ∧ f a = .error err := by
  cases x with
  | error err' => simp [bind, Except.bind]
  | ok a => simp [bind, Except.bind]

theorem TypedPlace.check_eq_ok {place : TypedPlace} {t : Ty} {u : Unit} :
    place.check t = .ok u ↔ t = place.wanted := by
  rw [TypedPlace.check]
  split <;> simp [*]

theorem TypedPlace.check_eq_error {place : TypedPlace} {t : Ty} {err : TypeError} :
    place.check t = .error err ↔ t ≠ place.wanted ∧ err = .wrongType place t := by
  rw [TypedPlace.check]
  split <;> simp [*, eq_comm]

namespace Expr

variable {G : TyScope} {t : Ty}

attribute [local simp] typeIn

theorem typeIn_number {text : String} : (number text).typeIn G = .ok t ↔ t = .int := by
  simp [eq_comm]

theorem typeIn_bool {b : Bool} : (bool b).typeIn G = .ok t ↔ t = .bool := by
  simp [eq_comm]

theorem typeIn_negate {e : Expr} :
    (negate e).typeIn G = .ok t ↔ e.typeIn G = .ok .int ∧ t = .int := by
  simp only [typeIn, except_bind_eq_ok, TypedPlace.check_eq_ok, TypedPlace.wanted]
  constructor
  · rintro ⟨_, he, _, rfl, h⟩
    cases h
    exact ⟨he, rfl⟩
  · rintro ⟨he, rfl⟩
    exact ⟨.int, he, (), rfl, rfl⟩

theorem typeIn_subtract {e₁ e₂ : Expr} :
    (subtract e₁ e₂).typeIn G = .ok t ↔
      e₁.typeIn G = .ok .int ∧ e₂.typeIn G = .ok .int ∧ t = .int := by
  simp only [typeIn, except_bind_eq_ok, TypedPlace.check_eq_ok, TypedPlace.wanted]
  constructor
  · rintro ⟨_, h₁, _, rfl, _, h₂, _, rfl, h⟩
    cases h
    exact ⟨h₁, h₂, rfl⟩
  · rintro ⟨h₁, h₂, rfl⟩
    exact ⟨.int, h₁, (), rfl, .int, h₂, (), rfl, rfl⟩

theorem typeIn_isZero {e : Expr} :
    (isZero e).typeIn G = .ok t ↔ e.typeIn G = .ok .int ∧ t = .bool := by
  simp only [typeIn, except_bind_eq_ok, TypedPlace.check_eq_ok, TypedPlace.wanted]
  constructor
  · rintro ⟨_, he, _, rfl, h⟩
    cases h
    exact ⟨he, rfl⟩
  · rintro ⟨he, rfl⟩
    exact ⟨.int, he, (), rfl, rfl⟩

theorem typeIn_ite {e e₁ e₂ : Expr} :
    (ite e e₁ e₂).typeIn G = .ok t ↔
      e.typeIn G = .ok .bool ∧ e₁.typeIn G = .ok t ∧ e₂.typeIn G = .ok t := by
  simp only [typeIn, except_bind_eq_ok, TypedPlace.check_eq_ok, TypedPlace.wanted]
  constructor
  · rintro ⟨_, he, _, rfl, t₁, h₁, t₂, h₂, h⟩
    split at h
    · rename_i ht
      cases h
      exact ⟨he, h₁, ht ▸ h₂⟩
    · cases h
  · rintro ⟨he, h₁, h₂⟩
    exact ⟨.bool, he, (), rfl, t, h₁, t, h₂, if_pos rfl⟩

theorem typeIn_identifier {x : String} :
    (identifier x).typeIn G = .ok t ↔ G.type? x = some t := by
  rw [typeIn]
  cases G.type? x <;> simp

theorem typeIn_letIn {x : String} {e₁ e₂ : Expr} :
    (letIn x e₁ e₂).typeIn G = .ok t ↔
      ∃ s, e₁.typeIn G = .ok s ∧ e₂.typeIn (G.extend x s) = .ok t := by
  rw [typeIn, except_bind_eq_ok]

theorem typeIn_proc {x : String} {s : Ty} {e : Expr} :
    (proc x s e).typeIn G = .ok t ↔ ∃ u, e.typeIn (G.extend x s) = .ok u ∧ t = .arrow s u := by
  rw [typeIn, except_bind_eq_ok]
  constructor
  · rintro ⟨u, he, h⟩
    cases h
    exact ⟨u, he, rfl⟩
  · rintro ⟨u, he, rfl⟩
    exact ⟨u, he, rfl⟩

theorem typeIn_apply {e₁ e₂ : Expr} :
    (apply e₁ e₂).typeIn G = .ok t ↔ ∃ s, e₁.typeIn G = .ok (.arrow s t) ∧ e₂.typeIn G = .ok s := by
  rw [typeIn, except_bind_eq_ok]
  constructor
  · rintro ⟨_ | _ | ⟨s, u⟩, h₁, h⟩
    · cases h
    · cases h
    · obtain ⟨s', h₂, h⟩ := except_bind_eq_ok.mp h
      split at h
      · rename_i hs
        cases h
        exact ⟨s, h₁, hs ▸ h₂⟩
      · cases h
  · rintro ⟨s, h₁, h₂⟩
    refine ⟨.arrow s t, h₁, ?_⟩
    simp only [except_bind_eq_ok]
    exact ⟨s, h₂, if_pos rfl⟩

theorem typeIn_letrec {f x : String} {s u : Ty} {e₁ e₂ : Expr} :
    (letrec u f x s e₁ e₂).typeIn G = .ok t ↔
      e₁.typeIn ((G.extend f (.arrow s u)).extend x s) = .ok u ∧
        e₂.typeIn (G.extend f (.arrow s u)) = .ok t := by
  simp only [typeIn, except_bind_eq_ok]
  constructor
  · rintro ⟨u', h₁, h⟩
    split at h
    · rename_i hu
      exact ⟨hu ▸ h₁, h⟩
    · cases h
  · rintro ⟨h₁, h₂⟩
    exact ⟨u, h₁, by rwa [if_pos rfl]⟩

theorem typeIn_assert {e₁ e₂ : Expr} {line : Option Int} :
    (assert e₁ e₂ line).typeIn G = .ok t ↔ e₁.typeIn G = .ok .bool ∧ e₂.typeIn G = .ok t := by
  simp only [typeIn, except_bind_eq_ok, TypedPlace.check_eq_ok, TypedPlace.wanted]
  constructor
  · rintro ⟨_, h₁, _, rfl, h₂⟩
    exact ⟨h₁, h₂⟩
  · rintro ⟨h₁, h₂⟩
    exact ⟨.bool, h₁, (), rfl, h₂⟩

end Expr

end TypedLet
