import Mathlib.Logic.Relation
import TypedLet.Proofs.Evaluation.Invariant

/-!
# The course of an evaluation

An evaluation opens further ones, inside it or in its place, each at a depth, after some steps, in a scope.
All that it ever opens is what it visits, and this is told apart from how it ends, so that it is known of
evaluations without an end too. An invariant holds of all that is visited. Every error is raised where
the evaluation has been (`Configuration.exists_raises`), and a bound on the depth that no visit exceeds
changes nothing (`Configuration.run_eq_of_depth_le`).
-/

namespace TypedLet

theorem Limits.enter_eq_of_depth_le {steps : Option Decimal} {most depth : Nat} (h : depth ≤ most)
    (before : Nat) :
    (⟨steps, some most⟩ : Limits).enter depth before = (⟨steps, none⟩ : Limits).enter depth before := by
  simp only [enter, depthError?, Nat.not_lt.mpr h, if_false]
  rfl

/-- An evaluation that is opened: its depth, the steps counted before, and the expression in its scope. -/
structure Configuration where
  depth : Nat
  before : Nat
  scope : ValueScope
  expr : Expr

namespace Configuration

def run (limits : Limits) (fuel : Nat) (c : Configuration) : Option Run :=
  evalFrom limits fuel c.depth c.before c.scope c.expr

/-- The first evaluation opens the second one in its turn: inside, one deeper, or in its place. -/
inductive Step (limits : Limits) : Configuration → Configuration → Prop where
  | inside {depth before fuel steps n scope e d} (henter : limits.enter depth before = .ok steps)
      (h : Opens (evalFrom limits fuel (depth + 1)) steps scope e n d) :
      Step limits ⟨depth, before, scope, e⟩ ⟨depth + 1, n, scope, d⟩
  | last {depth before fuel steps n scope e scope' e'} (henter : limits.enter depth before = .ok steps)
      (h : turn (evalFrom limits fuel (depth + 1)) steps scope e = some (.goesOn scope' e' n)) :
      Step limits ⟨depth, before, scope, e⟩ ⟨depth, n, scope', e'⟩

/-- The first evaluation opens the second one in the end, or is the same. -/
def Visits (limits : Limits) : Configuration → Configuration → Prop :=
  Relation.ReflTransGen (Step limits)

/-! ## Where an error comes from -/

/-- An error that no limit calls for is raised by an expression that the evaluation has been at. -/
theorem exists_raises {limits : Limits} {fuel n : Nat} {c : Configuration} {err : RuntimeError}
    (h : c.run limits fuel = some ⟨.error err, n⟩) :
    limits.Stops err ∨ ∃ c', Visits limits c c' ∧ c'.expr.Raises err := by
  induction fuel generalizing c n with
  | zero => cases h
  | succ fuel ih =>
      obtain ⟨depth, before, scope, e⟩ := c
      -- What an evaluation opened here has visited, this one has visited too.
      have hopened : ∀ {c' m}, Step limits ⟨depth, before, scope, e⟩ c' →
          c'.run limits fuel = some ⟨.error err, m⟩ →
          limits.Stops err ∨ ∃ c', Visits limits ⟨depth, before, scope, e⟩ c' ∧ c'.expr.Raises err := by
        intro c' m hstep hrun
        refine (ih hrun).imp_right fun ⟨c'', hvisits, hraises⟩ => ?_
        exact ⟨c'', .head hstep hvisits, hraises⟩
      cases Run.arises h with
      | stopped henter =>
          obtain ⟨_, ⟨⟩, hstop⟩ := Limits.enter_error henter
          exact .inl hstop
      | goesOn henter ht hrest => exact hopened (.last henter ht) hrest
      | ends henter ht =>
          cases Turn.arises ht with
          | inner hd hrun => exact hopened (.inside henter hd) hrun
          | raised hraises => exact .inr ⟨_, .refl, hraises⟩

/-! ## The depth -/

/-- A bound on the depth changes nothing if nothing that is visited without it is deeper. -/
theorem run_eq_of_depth_le {steps : Option Decimal} {most : Nat} {c : Configuration}
    (h : ∀ c', Visits ⟨steps, none⟩ c c' → c'.depth ≤ most) (fuel : Nat) :
    c.run ⟨steps, some most⟩ fuel = c.run ⟨steps, none⟩ fuel := by
  induction fuel generalizing c with
  | zero => rfl
  | succ fuel ih =>
      obtain ⟨depth, before, scope, e⟩ := c
      have hopened : ∀ {c'}, Step ⟨steps, none⟩ ⟨depth, before, scope, e⟩ c' →
          c'.run ⟨steps, some most⟩ fuel = c'.run ⟨steps, none⟩ fuel :=
        fun hstep => ih fun c' hvisits => h c' (.head hstep hvisits)
      have henter : (⟨steps, some most⟩ : Limits).enter depth before =
          (⟨steps, none⟩ : Limits).enter depth before := Limits.enter_eq_of_depth_le (h _ .refl) before
      simp only [run]
      cases hfree : (⟨steps, none⟩ : Limits).enter depth before with
      | error stop =>
          rw [evalFrom_of_enter_error hfree, evalFrom_of_enter_error (henter.trans hfree)]
      | ok n =>
          rw [evalFrom_of_enter_ok hfree, evalFrom_of_enter_ok (henter.trans hfree),
            turn_congr fun m d hd => hopened (.inside hfree hd)]
          cases ht : turn (evalFrom ⟨steps, none⟩ fuel (depth + 1)) n scope e with
          | none => rfl
          | some t =>
              cases t with
              | ends stop => rfl
              | goesOn scope' e' m => exact hopened (.last hfree ht)

end Configuration

/-! ## Invariants -/

namespace Invariant

variable {p : Expr → Prop} {S : ValueScope → Prop} {V : Value → Prop} (I : Invariant p S V)
  {limits : Limits} {c c' : Configuration}

include I

theorem step (h : Configuration.Step limits c c') (hc : p c.expr ∧ S c.scope) : p c'.expr ∧ S c'.scope := by
  cases h with
  | inside _ hd => exact ⟨I.hereditary _ hc.1 _ (Expr.inner_subset_children _ hd.mem_inner), hc.2⟩
  | last _ ht => exact I.turn I.evalFrom ht hc.1 hc.2

theorem visits (h : Configuration.Visits limits c c') (hc : p c.expr ∧ S c.scope) :
    p c'.expr ∧ S c'.scope := by
  induction h with
  | refl => exact hc
  | tail _ hstep ih => exact I.step hstep ih

end Invariant

end TypedLet
