import Mathlib.Data.Finset.Basic
import TypedLet.Typing

/-!
# Free names

The names that an expression takes from its scope. A `let` binds its name in its body, a procedure its
parameter, and a `letrec` its name in both of its parts and the parameter in the first. The type of an
expression depends on the types of its free names alone.
-/

namespace TypedLet

/-- The names that occur in the expression and are not bound there. -/
def Expr.freeNames : Expr → Finset String
  | number _ | bool _ => ∅
  | negate e | isZero e => e.freeNames
  | subtract e₁ e₂ | apply e₁ e₂ | assert e₁ e₂ _ => e₁.freeNames ∪ e₂.freeNames
  | ite e₁ e₂ e₃ => e₁.freeNames ∪ e₂.freeNames ∪ e₃.freeNames
  | identifier x => {x}
  | letIn x e₁ e₂ => e₁.freeNames ∪ e₂.freeNames.erase x
  | proc x _ e => e.freeNames.erase x
  | letrec _ f x _ e₁ e₂ => (e₁.freeNames.erase x ∪ e₂.freeNames).erase f

/-- The two type scopes give each of the names the same type, or none. -/
def TyScope.SameOn (names : Finset String) (G H : TyScope) : Prop :=
  ∀ x ∈ names, G.type? x = H.type? x

namespace TyScope

variable {names : Finset String} {G H : TyScope}

theorem SameOn.mono {more : Finset String} (h : SameOn more G H) (hnames : names ⊆ more) :
    SameOn names G H :=
  fun x hx => h x (hnames hx)

theorem SameOn.extend {x : String} (h : SameOn (names.erase x) G H) (t : Ty) :
    SameOn names (G.extend x t) (H.extend x t) := by
  intro y hy
  by_cases hxy : x = y
  · subst hxy
    rw [type?_extend_self, type?_extend_self]
  · rw [type?_extend_of_ne G t hxy, type?_extend_of_ne H t hxy]
    exact h y (Finset.mem_erase.2 ⟨Ne.symm hxy, hy⟩)

end TyScope

/-- An expression has the same type, or the same type error, wherever its free names have the same
types. -/
theorem Expr.typeIn_congr {e : Expr} {G H : TyScope} (h : TyScope.SameOn e.freeNames G H) :
    e.typeIn G = e.typeIn H := by
  induction e generalizing G H with
  | number | bool => rfl
  | negate d ih | isZero d ih => rw [typeIn, typeIn, ih h]
  | subtract d₁ d₂ ih₁ ih₂ | apply d₁ d₂ ih₁ ih₂ | assert d₁ d₂ line ih₁ ih₂ =>
      rw [typeIn, typeIn, ih₁ (h.mono Finset.subset_union_left),
        ih₂ (h.mono Finset.subset_union_right)]
  | ite d d₁ d₂ ih ih₁ ih₂ =>
      have h' := h.mono Finset.subset_union_left
      rw [typeIn, typeIn, ih (h'.mono Finset.subset_union_left),
        ih₁ (h'.mono Finset.subset_union_right), ih₂ (h.mono Finset.subset_union_right)]
  | identifier x => rw [typeIn, typeIn, h x (Finset.mem_singleton_self x)]
  | letIn x d₁ d₂ ih₁ ih₂ =>
      have hbody : ∀ t, d₂.typeIn (G.extend x t) = d₂.typeIn (H.extend x t) :=
        fun t => ih₂ ((h.mono Finset.subset_union_right).extend t)
      simp only [typeIn, ih₁ (h.mono Finset.subset_union_left), hbody]
  | proc x s d ih => rw [typeIn, typeIn, ih (TyScope.SameOn.extend h s)]
  | letrec u f x s d₁ d₂ ih₁ ih₂ =>
      have hinner := TyScope.SameOn.extend h (.arrow s u)
      rw [typeIn, typeIn, ih₁ ((hinner.mono Finset.subset_union_left).extend s),
        ih₂ (hinner.mono Finset.subset_union_right)]

end TypedLet
