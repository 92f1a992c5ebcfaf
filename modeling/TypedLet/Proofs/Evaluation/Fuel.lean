import TypedLet.Program
import TypedLet.Proofs.Evaluation.Visits

/-!
# More fuel changes no run that ends

A turn that comes to something has waited for every part that it opened. So whatever ends with some fuel
ends in the same way with more, and what an expression comes to does not depend on the fuel. An error of a
part ends the turn, so a bound on the depth shows in the result or changes nothing.
-/

namespace TypedLet

theorem Opens.exists_run {inside : Nat → ValueScope → Expr → Option Run} {steps n : Nat}
    {scope : ValueScope} {e d : Expr} {t : Turn} (h : Opens inside steps scope e n d)
    (ht : turn inside steps scope e = some t) : ∃ run, inside n scope d = some run := by
  rw [← Option.ne_none_iff_exists']
  intro hnone
  cases h with
  | negate | left | isZero | ite | letIn | operator | assert =>
      rw [turn, hnone] at ht
      cases ht
  | right hleft | operand hleft =>
      rw [turn, hleft, Turn.withPart_met rfl, hnone] at ht
      cases ht

/-- An error of a part ends the turn. -/
theorem Opens.turn_eq_of_error {inside : Nat → ValueScope → Expr → Option Run} {turns n m : Nat}
    {scope : ValueScope} {e d : Expr} {err : RuntimeError} (h : Opens inside turns scope e n d)
    (hrun : inside n scope d = some ⟨.error err, m⟩) :
    turn inside turns scope e = some (.ends ⟨.error err, m⟩) := by
  cases h with
  | negate | left | isZero | ite | letIn | operator | assert =>
      rw [turn, hrun]
      rfl
  | right hleft | operand hleft =>
      rw [turn, hleft, Turn.withPart_met rfl, hrun]
      rfl

section Fuel

variable {limits : Limits} {depth before : Nat} {scope : ValueScope} {e : Expr} {run : Run}

theorem evalFrom_fuel_succ {fuel : Nat} (h : evalFrom limits fuel depth before scope e = some run) :
    evalFrom limits (fuel + 1) depth before scope e = some run := by
  induction fuel generalizing depth before scope e run with
  | zero => cases h
  | succ fuel ih =>
      have hturn : ∀ {steps t}, turn (evalFrom limits fuel (depth + 1)) steps scope e = some t →
          turn (evalFrom limits (fuel + 1) (depth + 1)) steps scope e = some t := fun ht => by
        rw [← ht]
        refine turn_congr fun n d hopens => ?_
        obtain ⟨inner, hinner⟩ := hopens.exists_run ht
        rw [hinner, ih hinner]
      cases Run.arises h with
      | stopped henter => exact evalFrom_of_enter_error henter scope e
      | ends henter ht =>
          rw [evalFrom_of_enter_ok henter, hturn ht]
          rfl
      | goesOn henter ht hrest =>
          rw [evalFrom_of_enter_ok henter, hturn ht]
          exact ih hrest

theorem evaluate_fuel_mono {fuel fuel' : Nat} (hle : fuel ≤ fuel')
    (h : evaluate fuel limits scope e before = some run) :
    evaluate fuel' limits scope e before = some run := by
  induction hle with
  | refl => exact h
  | step _ ih => exact evalFrom_fuel_succ ih

/-- A run under a bound on the depth that does not fail for it is the run without the bound. -/
theorem evalFrom_depth_none {steps : Option Decimal} {most fuel : Nat}
    (h : evalFrom ⟨steps, some most⟩ fuel depth before scope e = some run)
    (hrun : run.result ≠ .error .depthLimit) :
    evalFrom ⟨steps, none⟩ fuel depth before scope e = some run := by
  induction fuel generalizing depth before scope e run with
  | zero => cases h
  | succ fuel ih =>
      have hdepth : depth ≤ most := Nat.le_of_not_lt fun hdeep => by
        have henter : (⟨steps, some most⟩ : Limits).enter depth before =
            .error ⟨.error .depthLimit, before⟩ := by
          simp only [Limits.enter, Limits.depthError?, if_pos hdeep]
        rw [evalFrom_of_enter_error henter, Option.some.injEq] at h
        exact hrun (h ▸ rfl)
      have hsame : (⟨steps, some most⟩ : Limits).enter depth before =
          (⟨steps, none⟩ : Limits).enter depth before := Limits.enter_eq_of_depth_le hdepth before
      have hturn : ∀ {n t}, turn (evalFrom ⟨steps, some most⟩ fuel (depth + 1)) n scope e = some t →
          (∀ m, t ≠ .ends ⟨.error .depthLimit, m⟩) →
          turn (evalFrom ⟨steps, none⟩ fuel (depth + 1)) n scope e = some t := fun ht hne => by
        rw [← ht]
        refine turn_congr fun n d hopens => ?_
        obtain ⟨⟨result, m⟩, hinner⟩ := hopens.exists_run ht
        rw [hinner]
        refine ih hinner fun hresult => hne m ?_
        rw [show result = .error .depthLimit from hresult] at hinner
        exact Option.some.inj (ht.symm.trans (hopens.turn_eq_of_error hinner))
      cases Run.arises h with
      | stopped henter => exact evalFrom_of_enter_error (hsame ▸ henter) scope e
      | ends henter ht =>
          rw [evalFrom_of_enter_ok (hsame ▸ henter), hturn ht fun m hends => hrun (by cases hends; rfl)]
          rfl
      | goesOn henter ht hrest =>
          rw [evalFrom_of_enter_ok (hsame ▸ henter), hturn ht fun m hends => by cases hends]
          exact ih hrest hrun

end Fuel

/-- A program comes to the same with more fuel. -/
theorem runSource_fuel_mono {fuel fuel' : Nat} (hle : fuel ≤ fuel') {limits : Limits}
    {given : List Given} {source : String} {r : Except Failure Outcome}
    (h : runSource fuel limits given source = some r) :
    runSource fuel' limits given source = some r := by
  unfold runSource Expr.run at h ⊢
  split at h
  · exact h
  · split at h
    · exact h
    · obtain ⟨run, hrun, rfl⟩ := Option.map_eq_some_iff.1 h
      rw [evaluate_fuel_mono hle hrun]
      rfl

/-- A program that does not fail for a bound on the depth comes to the same without the bound. -/
theorem runSource_depth_none {fuel : Nat} {steps : Option Decimal} {depth : Option Nat}
    {given : List Given} {source : String} {r : Except Failure Outcome}
    (h : runSource fuel ⟨steps, depth⟩ given source = some r)
    (hr : r ≠ .error (.runtime .depthLimit)) : runSource fuel ⟨steps, none⟩ given source = some r := by
  cases depth with
  | none => exact h
  | some most =>
      unfold runSource Expr.run at h ⊢
      split at h
      · exact h
      · split at h
        · exact h
        · obtain ⟨run, hrun, rfl⟩ := Option.map_eq_some_iff.1 h
          have hresult : run.result ≠ .error .depthLimit := fun heq => hr (by rw [heq])
          rw [evaluate, evalFrom_depth_none hrun hresult]
          rfl

end TypedLet
