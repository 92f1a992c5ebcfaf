import TypedLet.Proofs.Evaluation.Reachable
import TypedLet.Proofs.Evaluation.StepLimit
import TypedLet.Proofs.Evaluation.Visits

/-!
# Calls in last place

A program whose calls are all in last place runs at a depth that its text bounds, for however long it
runs. An expression is evaluated inside another one only as a part that takes nobody's place. If such a
part has no call, then all that is evaluated inside it is made of its own parts. So a body is only ever
entered by the outermost evaluation, at depth one, and the depth is at most the height of the body.
-/

namespace TypedLet

namespace Expr

/-- The number of expressions on the longest way down from the expression. -/
def height : Expr → Nat
  | number _ | bool _ | identifier _ => 1
  | negate e | isZero e | proc _ _ e => e.height + 1
  | subtract e₁ e₂ | letIn _ e₁ e₂ | apply e₁ e₂ | letrec _ _ _ _ e₁ e₂ | assert e₁ e₂ _ =>
    max e₁.height e₂.height + 1
  | ite e₁ e₂ e₃ => max e₁.height (max e₂.height e₃.height) + 1

/-- Whether there is a call in the expression outside the bodies of its procedures. -/
def hasCall : Expr → Bool
  | number _ | bool _ | identifier _ | proc .. => false
  | negate e | isZero e => e.hasCall
  | subtract e₁ e₂ | letIn _ e₁ e₂ | assert e₁ e₂ _ => e₁.hasCall || e₂.hasCall
  | ite e₁ e₂ e₃ => e₁.hasCall || e₂.hasCall || e₃.hasCall
  | apply .. => true
  | letrec _ _ _ _ _ e => e.hasCall

/-- Wherever an expression is evaluated inside another one, in the whole or in a part of it, it has no call
outside the bodies of its procedures. -/
def CallsLast (e : Expr) : Prop :=
  ∀ d ∈ e.parts, ∀ c ∈ d.inner, c.hasCall = false

instance (e : Expr) : Decidable e.CallsLast :=
  inferInstanceAs (Decidable (∀ d ∈ e.parts, ∀ c ∈ d.inner, c.hasCall = false))

theorem height_pos (e : Expr) : 0 < e.height := by
  cases e <;> exact Nat.succ_pos _

theorem height_lt_of_child {d e : Expr} (hd : d ∈ e.children) : d.height < e.height := by
  cases e <;> simp only [children, List.mem_cons, List.not_mem_nil, or_false] at hd
  case negate | isZero | proc => exact hd ▸ Nat.lt_succ_self _
  case ite => rcases hd with rfl | rfl | rfl <;> simp only [height] <;> omega
  all_goals rcases hd with rfl | rfl <;> simp only [height] <;> omega

theorem hereditary_callsLast : Hereditary CallsLast :=
  fun _ he _ hd c hc => he c (parts_subset_of_child hd hc)

theorem hereditary_height_le (most : Nat) : Hereditary (·.height ≤ most) :=
  fun _ he _ hd => Nat.le_of_lt (Nat.lt_of_lt_of_le (height_lt_of_child hd) he)

theorem CallsLast.hasCall_of_inner {d e : Expr} (he : e.CallsLast) (hd : d ∈ e.inner) :
    d.hasCall = false :=
  he e (self_mem_parts e) d hd

end Expr

/-! ## The depth of a course -/

namespace Configuration

/-- The expression and all bodies that its scope leads to have calls in last place only, and no room for
more than the depth `most`. Evaluations inside others have no calls. -/
structure Shallow (most : Nat) (c : Configuration) : Prop where
  expr : c.expr.CallsLast ∧ c.expr.height ≤ most
  scope : c.scope.Bodies fun e => e.CallsLast ∧ e.height ≤ most
  room : c.depth + c.expr.height ≤ most + 1
  outermost : c.depth = 1 ∨ c.expr.hasCall = false

variable {most : Nat} {c c' : Configuration} {limits : Limits}

theorem Shallow.depth_le (h : c.Shallow most) : c.depth ≤ most := by
  have hroom := h.room
  have hpos := c.expr.height_pos
  omega

/-- What goes on in the place of an expression is a lower part of it, without calls if it has none, or the
body of a procedure that it calls. -/
theorem last_or_body {inside : Nat → ValueScope → Expr → Option Run} {steps n : Nat}
    {scope scope' : ValueScope} {e e' : Expr} (h : turn inside steps scope e = some (.goesOn scope' e' n)) :
    (e'.height < e.height ∧ (e.hasCall = false → e'.hasCall = false)) ∨ e.hasCall = true := by
  cases Turn.arises h with
  | apply => exact .inr rfl
  | thenBranch | elseBranch | letIn | letrec | assert =>
      refine .inl ⟨Expr.height_lt_of_child (by simp [Expr.children]), fun he => ?_⟩
      simp_all [Expr.hasCall]

theorem Shallow.step (h : c.Shallow most) (hstep : Step limits c c') : c'.Shallow most := by
  have I := invariant_bodies (Expr.hereditary_callsLast.and (Expr.hereditary_height_le most))
  obtain ⟨hexpr, hscope⟩ := I.step hstep ⟨h.expr, h.scope⟩
  have hroom := h.room
  cases hstep with
  | inside _ hd =>
      have hlower := Expr.height_lt_of_child (Expr.inner_subset_children _ hd.mem_inner)
      have hcall := h.expr.1.hasCall_of_inner hd.mem_inner
      exact ⟨hexpr, hscope, by simp only at hroom ⊢; omega, .inr hcall⟩
  | last _ ht =>
      rcases last_or_body ht with ⟨hlower, hcall⟩ | hcall
      · exact ⟨hexpr, hscope, by simp only at hroom ⊢; omega, h.outermost.imp_right hcall⟩
      · -- Only the outermost evaluation has calls, and from depth one there is room for every body.
        have hdepth := h.outermost.resolve_right (by simp [hcall])
        have hheight := hexpr.2
        exact ⟨hexpr, hscope, by simp only at hdepth hheight ⊢; omega, .inl hdepth⟩

theorem Shallow.visits (h : c.Shallow most) (hvisits : Visits limits c c') : c'.Shallow most := by
  induction hvisits with
  | refl => exact h
  | tail _ hstep ih => exact ih.step hstep

end Configuration

/-- Without a bound on the depth no evaluation fails for its depth. -/
theorem evaluate_ne_depthLimit {steps : Option Decimal} {fuel before : Nat} {scope : ValueScope}
    {e : Expr} {run : Run} (h : evaluate fuel ⟨steps, none⟩ scope e before = some run) :
    run.result ≠ .error .depthLimit := by
  obtain ⟨r, n⟩ := run
  rintro rfl
  have hrun : Configuration.run ⟨steps, none⟩ fuel ⟨1, before, scope, e⟩ =
      some ⟨.error .depthLimit, n⟩ := h
  rcases Configuration.exists_raises hrun with hstop | ⟨⟨_, _, _, d⟩, -, hraises⟩
  · exact hstop rfl
  · cases hraises

/-- Calls in last place never exhaust the depth. If all calls of an expression and of the bodies that its
scope leads to are in last place, then a depth as great as the greatest height among them is enough: no
evaluation that is ever opened is deeper, whether or not the whole ends, and with that bound on the depth
it goes as without one and does not fail for its depth, whatever the bound on the steps is. -/
theorem evaluate_callsLast {scope : ValueScope} {e : Expr} {most : Nat} (he : e.CallsLast)
    (hscope : scope.Bodies Expr.CallsLast) (hheight : e.height ≤ most)
    (hheights : scope.Bodies (·.height ≤ most)) :
    (∀ limits before c, Configuration.Visits limits ⟨1, before, scope, e⟩ c → c.depth ≤ most) ∧
    ∀ steps fuel before,
      evaluate fuel ⟨steps, some most⟩ scope e before = evaluate fuel ⟨steps, none⟩ scope e before ∧
        ∀ run, evaluate fuel ⟨steps, some most⟩ scope e before = some run →
          run.result ≠ .error .depthLimit := by
  have hdepth : ∀ limits before c, Configuration.Visits limits ⟨1, before, scope, e⟩ c → c.depth ≤ most := by
    intro limits before c hvisits
    have hstart : Configuration.Shallow most ⟨1, before, scope, e⟩ :=
      ⟨⟨he, hheight⟩, fun code home hreach => ⟨hscope code home hreach, hheights code home hreach⟩,
        by simp only; omega, .inl rfl⟩
    exact (hstart.visits hvisits).depth_le
  refine ⟨hdepth, fun steps fuel before => ?_⟩
  have hsame : evaluate fuel ⟨steps, some most⟩ scope e before =
      evaluate fuel ⟨steps, none⟩ scope e before :=
    Configuration.run_eq_of_depth_le (hdepth ⟨steps, none⟩ before) fuel
  refine ⟨hsame, fun run hrun => ?_⟩
  rw [hsame] at hrun
  exact evaluate_ne_depthLimit hrun

/-- The loop that calls itself in last place goes on forever at the depth two. -/
theorem loopCall_evaluate_callsLast :
    loopCall.CallsLast ∧ loopScope.Bodies Expr.CallsLast ∧ loopCall.height ≤ 2 ∧
      loopScope.Bodies (·.height ≤ 2) ∧
    (∀ limits before c, Configuration.Visits limits ⟨1, before, loopScope, loopCall⟩ c → c.depth ≤ 2) ∧
    ∀ fuel, evaluate fuel ⟨none, some 2⟩ loopScope loopCall 0 = none := by
  have hcalls : loopCall.CallsLast := by decide
  have hheight : loopCall.height ≤ 2 := by decide
  have hbodies : ∀ {p : Expr → Prop}, p loopCall → loopScope.Bodies p :=
    fun hp => (ValueScope.bodies_empty.extendRec hp).extend trivial
  obtain ⟨hdepth, hbound⟩ := evaluate_callsLast hcalls (hbodies hcalls) hheight (hbodies hheight)
  refine ⟨hcalls, hbodies hcalls, hheight, hbodies hheight, hdepth, fun fuel => ?_⟩
  rw [(hbound none fuel 0).1]
  exact evalFrom_loopCall fuel 1 0

end TypedLet
