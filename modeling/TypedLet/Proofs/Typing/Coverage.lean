import TypedLet.Proofs.Typing.Blame
import TypedLet.Proofs.Typing.FreeNames

/-!
# The names that a check needs

A check needs the types of the free names and no others. Where it succeeds, all of them have types, and
the name that it misses where it fails for a name is one of them. Each binder takes its name out of the
free names of just those parts in whose scope it puts the name.
-/

namespace TypedLet

namespace TyScope

variable {names more : Finset String} {G : TyScope} {x : String} {t : Ty}

/-- Every one of the names has a type. -/
def Covers (G : TyScope) (names : Finset String) : Prop :=
  ∀ x ∈ names, ∃ t, G.type? x = some t

theorem Covers.union (h : G.Covers names) (h' : G.Covers more) : G.Covers (names ∪ more) :=
  fun x hx => (Finset.mem_union.1 hx).elim (h x) (h' x)

theorem Covers.of_extend (h : Covers (G.extend x t) names) : G.Covers (names.erase x) := by
  intro y hy
  obtain ⟨hne, hy⟩ := Finset.mem_erase.1 hy
  obtain ⟨s, hs⟩ := h y hy
  exact ⟨s, by rwa [type?_extend_of_ne G t hne.symm] at hs⟩

/-- A name without a type in a longer scope is another one, and has none in the shorter scope. -/
theorem type?_extend_eq_none {y : String} (h : type? (G.extend x t) y = none) :
    y ≠ x ∧ G.type? y = none := by
  by_cases hxy : x = y
  · subst hxy
    rw [type?_extend_self] at h
    cases h
  · rw [type?_extend_of_ne G t hxy] at h
    exact ⟨Ne.symm hxy, h⟩

end TyScope

variable {G H : TyScope} {e d s : Expr} {t : Ty} {i : Nat} {p : List Nat} {x : String}

theorem Typed.covers (h : Typed G e t) : G.Covers e.freeNames := by
  induction h with
  | number | bool => exact fun x hx => absurd hx (Finset.notMem_empty x)
  | negate _ ih | isZero _ ih => exact ih
  | subtract _ _ ih₁ ih₂ | apply _ _ ih₁ ih₂ | assert _ _ ih₁ ih₂ => exact ih₁.union ih₂
  | ite _ _ _ ih ih₁ ih₂ => exact (ih.union ih₁).union ih₂
  | identifier hx =>
      intro y hy
      obtain rfl := Finset.mem_singleton.1 hy
      exact ⟨_, hx⟩
  | letIn _ _ ih₁ ih₂ => exact ih₁.union ih₂.of_extend
  | proc _ ih => exact ih.of_extend
  | letrec _ _ ih₁ ih₂ => exact (ih₁.of_extend.union ih₂).of_extend

/-- A free name of a part that has no type there is a free name of the whole and has no type outside. -/
theorem Examines.unbound (h : Examines G e i H d) (hx : x ∈ d.freeNames) (hnone : H.type? x = none) :
    x ∈ e.freeNames ∧ G.type? x = none := by
  cases h with
  | negate | isZero => exact ⟨hx, hnone⟩
  | subtract_left | letIn_init | apply_fn | assert_guard =>
      exact ⟨Finset.mem_union_left _ hx, hnone⟩
  | subtract_right | apply_arg | assert_body | ite_else =>
      exact ⟨Finset.mem_union_right _ hx, hnone⟩
  | ite_guard => exact ⟨Finset.mem_union_left _ (Finset.mem_union_left _ hx), hnone⟩
  | ite_then => exact ⟨Finset.mem_union_left _ (Finset.mem_union_right _ hx), hnone⟩
  | letIn_body =>
      obtain ⟨hne, hG⟩ := TyScope.type?_extend_eq_none hnone
      exact ⟨Finset.mem_union_right _ (Finset.mem_erase.2 ⟨hne, hx⟩), hG⟩
  | proc =>
      obtain ⟨hne, hG⟩ := TyScope.type?_extend_eq_none hnone
      exact ⟨Finset.mem_erase.2 ⟨hne, hx⟩, hG⟩
  | letrec_body =>
      obtain ⟨hparam, hinner⟩ := TyScope.type?_extend_eq_none hnone
      obtain ⟨hname, hG⟩ := TyScope.type?_extend_eq_none hinner
      exact ⟨Finset.mem_erase.2 ⟨hname, Finset.mem_union_left _ (Finset.mem_erase.2 ⟨hparam, hx⟩)⟩, hG⟩
  | letrec_last =>
      obtain ⟨hname, hG⟩ := TyScope.type?_extend_eq_none hnone
      exact ⟨Finset.mem_erase.2 ⟨hname, Finset.mem_union_right _ hx⟩, hG⟩

theorem Checks.unbound (h : Checks G e p H s) (hx : x ∈ s.freeNames) (hnone : H.type? x = none) :
    x ∈ e.freeNames ∧ G.type? x = none := by
  induction h with
  | here => exact ⟨hx, hnone⟩
  | inside hi _ ih =>
      obtain ⟨hfree, hinner⟩ := ih hx hnone
      exact hi.unbound hfree hinner

theorem exists_unbound {err : TypeError} (h : e.typeIn G = .error err) (hkind : err.kind = .unbound) :
    ∃ x, err = .unbound x ∧ x ∈ e.freeNames ∧ G.type? x = none := by
  obtain ⟨p, H, s, hchecks, hbreaks⟩ := exists_breaks h
  cases hbreaks with
  | @unbound x hx => exact ⟨x, rfl, hchecks.unbound (Finset.mem_singleton_self x) hx⟩
  | wrongType | branches | argument | result | notProcedure => cases hkind

/-- What a check comes to, a type or an error, depends on the types of the free names alone. If it is a
type then all free names have types, and a name that an error calls undefined is a free one without a
type. -/
theorem typeIn_freeNames (e : Expr) :
    (∀ G H, TyScope.SameOn e.freeNames G H → e.typeIn G = e.typeIn H) ∧
      (∀ G t, e.typeIn G = .ok t → G.Covers e.freeNames) ∧
      (∀ G err, e.typeIn G = .error err → err.kind = .unbound →
        ∃ x, err.message = "undefined name " ++ TypeError.quote x ∧ x ∈ e.freeNames ∧
          G.type? x = none) ∧
      ∀ G err, G.Covers e.freeNames → e.typeIn G = .error err → err.kind ≠ .unbound := by
  refine ⟨fun G H h => Expr.typeIn_congr h, fun G t h => (typed_of_typeIn h).covers,
    fun G err h hkind => ?_, fun G err hcovers h hkind => ?_⟩
  · obtain ⟨x, rfl, hfree, hnone⟩ := exists_unbound h hkind
    exact ⟨x, rfl, hfree, hnone⟩
  · obtain ⟨x, rfl, hfree, hnone⟩ := exists_unbound h hkind
    obtain ⟨t, ht⟩ := hcovers x hfree
    rw [hnone] at ht
    cases ht

/-- The name `y` is free in the procedure and bound behind it, and the name `z` is free there. -/
def offsetProgram : Expr :=
  .letrec .int "f" "n" .int (.subtract (.identifier "n") (.identifier "y"))
    (.letIn "y" (.apply (.identifier "f") (.identifier "z")) (.identifier "y"))

theorem offsetProgram_typeIn_freeNames :
    offsetProgram.typeIn (.extend "z" .int (.extend "y" .int .empty)) =
        offsetProgram.typeIn (.extend "y" .int (.extend "f" .bool (.extend "z" .int .empty))) ∧
      TyScope.Covers (.extend "z" .int (.extend "y" .int .empty)) offsetProgram.freeNames ∧
      (∃ x, (TypeError.unbound "z").message = "undefined name " ++ TypeError.quote x ∧
        x ∈ offsetProgram.freeNames ∧ TyScope.type? (.extend "y" .int .empty) x = none) ∧
      offsetProgram.typeIn (.extend "z" .bool (.extend "y" .int .empty)) =
        .error (.argument .int .bool) ∧
      (TypeError.argument .int .bool).kind ≠ .unbound := by
  have hfree : offsetProgram.freeNames = {"y", "z"} := by decide
  obtain ⟨hsame, hcovers, hunbound, hnever⟩ := typeIn_freeNames offsetProgram
  refine ⟨hsame _ _ ?_, hcovers _ .int rfl, hunbound _ _ rfl rfl, rfl,
    hnever (.extend "z" .bool (.extend "y" .int .empty)) _ ?_ rfl⟩
  · rw [hfree]
    simp [TyScope.SameOn, TyScope.type?, Scope.lookup]
  · rw [hfree]
    simp [TyScope.Covers, TyScope.type?, Scope.lookup]

end TypedLet
