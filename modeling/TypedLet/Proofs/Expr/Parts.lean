import TypedLet.Expr

/-!
# Parts of expressions

An expression is made of the expressions directly inside it and of the parts of these. A property that
passes from an expression to what is directly inside it holds of all its parts.
-/

namespace TypedLet.Expr

def children : Expr → List Expr
  | number _ | bool _ | identifier _ => []
  | negate e | isZero e | proc _ _ e => [e]
  | subtract e₁ e₂ | letIn _ e₁ e₂ | apply e₁ e₂ | letrec _ _ _ _ e₁ e₂ | assert e₁ e₂ _ => [e₁, e₂]
  | ite e₁ e₂ e₃ => [e₁, e₂, e₃]

/-- The property passes from an expression to its parts. -/
def Hereditary (p : Expr → Prop) : Prop :=
  ∀ e, p e → ∀ d ∈ e.children, p d

theorem hereditary_true : Hereditary fun _ => True := fun _ _ _ _ => trivial

theorem Hereditary.and {p q : Expr → Prop} (hp : Hereditary p) (hq : Hereditary q) :
    Hereditary fun e => p e ∧ q e :=
  fun e h d hd => ⟨hp e h.1 d hd, hq e h.2 d hd⟩

/-- Induction over what is directly inside, whatever the form is. -/
@[elab_as_elim]
theorem childInduction {p : Expr → Prop} (ind : ∀ e, (∀ d ∈ e.children, p d) → p e) (e : Expr) : p e := by
  induction e with
  | _ => exact ind _ (by simp [children, *])

/-- The expression and all its parts, each one in front of its own parts. -/
def parts : Expr → List Expr
  | number text => [number text]
  | bool b => [bool b]
  | identifier x => [identifier x]
  | negate e => negate e :: e.parts
  | isZero e => isZero e :: e.parts
  | proc x t e => proc x t e :: e.parts
  | subtract e₁ e₂ => subtract e₁ e₂ :: (e₁.parts ++ e₂.parts)
  | letIn x e₁ e₂ => letIn x e₁ e₂ :: (e₁.parts ++ e₂.parts)
  | apply e₁ e₂ => apply e₁ e₂ :: (e₁.parts ++ e₂.parts)
  | letrec t f x s e₁ e₂ => letrec t f x s e₁ e₂ :: (e₁.parts ++ e₂.parts)
  | assert e₁ e₂ line => assert e₁ e₂ line :: (e₁.parts ++ e₂.parts)
  | ite e₁ e₂ e₃ => ite e₁ e₂ e₃ :: (e₁.parts ++ (e₂.parts ++ e₃.parts))

theorem parts_eq (e : Expr) : e.parts = e :: e.children.flatMap parts := by
  cases e <;> simp only [parts, children, List.flatMap_cons, List.flatMap_nil, List.append_nil]

theorem self_mem_parts (e : Expr) : e ∈ e.parts := by
  rw [parts_eq]
  exact List.mem_cons_self

theorem parts_subset_of_child {d e : Expr} (hd : d ∈ e.children) : d.parts ⊆ e.parts := by
  intro c hc
  rw [parts_eq e]
  exact List.mem_cons_of_mem _ (List.mem_flatMap.2 ⟨d, hd, hc⟩)

/-- The parts of a part are parts. -/
theorem parts_subset_of_mem {d e : Expr} (hd : d ∈ e.parts) : d.parts ⊆ e.parts := by
  induction e using childInduction with
  | ind e ih =>
      rw [parts_eq, List.mem_cons, List.mem_flatMap] at hd
      obtain rfl | ⟨c, hc, hdc⟩ := hd
      · exact List.Subset.refl _
      · exact List.Subset.trans (ih c hc hdc) (parts_subset_of_child hc)

theorem hereditary_mem_parts (e : Expr) : Hereditary (· ∈ e.parts) :=
  fun _ hd _ hc => parts_subset_of_mem hd (parts_subset_of_child hc (self_mem_parts _))

end TypedLet.Expr
