import TypedLet.Proofs.Evaluation.BigStep

/-!
# The evaluator follows the rules

The evaluator is a loop: an expression in last place takes the place of the one before, and nothing is
kept of what was there. The rules know no last place. Here the two are shown to agree. What a turn of
the loop leaves to do is what the rule of the expression asks for (`Turn.Follows`), so a run that ends
has a derivation with one rule for each turn; and a derivation of `n` rules is a run that takes `n` of
fuel. A limit can only end a run early (`Limits.Stops`). The counter of steps shows the number of rules
only as far as it counts.
-/

namespace TypedLet

/-! ## Ends that the limits call for -/

/-- The limits can end a run with this error. -/
def Limits.Stops (limits : Limits) : RuntimeError → Prop
  | .stepLimit limit => limits.steps = some limit
  | .depthLimit => limits.depth ≠ none
  | _ => False

/-- All that opening an expression comes to: it is too deep, the counter passes the limit with its turn, or
its turn is counted. -/
inductive Limits.Enters (limits : Limits) (depth before : Nat) : Except Run Nat → Prop where
  | tooDeep {most} (h : limits.depth = some most) (hdeep : most < depth) :
      Enters limits depth before (.error ⟨.error .depthLimit, before⟩)
  | past {limit} (hdepth : ∀ most, limits.depth = some most → depth ≤ most)
      (h : limits.steps = some limit) (hpast : limit.floor < Counter.shown (before + 1)) :
      Enters limits depth before (.error ⟨.error (.stepLimit limit), before + 1⟩)
  | counted (hdepth : ∀ most, limits.depth = some most → depth ≤ most)
      (hsteps : ∀ limit, limits.steps = some limit → Counter.shown (before + 1) ≤ limit.floor) :
      Enters limits depth before (.ok (before + 1))

theorem Limits.enters (limits : Limits) (depth before : Nat) :
    limits.Enters depth before (limits.enter depth before) := by
  unfold enter depthError? stepError?
  grind [Enters]

theorem Limits.enter_ok {limits : Limits} {depth before turns : Nat}
    (h : limits.enter depth before = .ok turns) : turns = before + 1 := by
  cases h ▸ limits.enters depth before
  rfl

theorem Limits.enter_error {limits : Limits} {depth before : Nat} {run : Run}
    (h : limits.enter depth before = .error run) :
    ∃ err, run.result = .error err ∧ limits.Stops err := by
  cases h ▸ limits.enters depth before with
  | tooDeep hmost => exact ⟨_, rfl, by simp [Stops, hmost]⟩
  | past _ hlimit => exact ⟨_, rfl, hlimit⟩

theorem Limits.not_stops_unlimited (err : RuntimeError) : ¬ (⟨none, none⟩ : Limits).Stops err := by
  cases err <;> simp [Limits.Stops]

/-! ## How runs end -/

/-- All ways in which a run that ends comes about: a limit stops it before its turn, the turn ends it, or
it goes on after the turn. -/
inductive Run.Arises (limits : Limits) (fuel depth before : Nat) (scope : ValueScope) (e : Expr) :
    Run → Prop where
  | stopped {run} (henter : limits.enter depth before = .error run) :
      Arises limits fuel depth before scope e run
  | ends {run turns} (henter : limits.enter depth before = .ok turns)
      (ht : turn (evalFrom limits fuel (depth + 1)) turns scope e = some (.ends run)) :
      Arises limits fuel depth before scope e run
  | goesOn {run turns scope' e' n} (henter : limits.enter depth before = .ok turns)
      (ht : turn (evalFrom limits fuel (depth + 1)) turns scope e = some (.goesOn scope' e' n))
      (hrest : evalFrom limits fuel depth n scope' e' = some run) :
      Arises limits fuel depth before scope e run

theorem Run.arises {limits : Limits} {fuel depth before : Nat} {scope : ValueScope} {e : Expr}
    {run : Run} (h : evalFrom limits (fuel + 1) depth before scope e = some run) :
    run.Arises limits fuel depth before scope e := by
  cases henter : limits.enter depth before with
  | error stop =>
      rw [evalFrom_of_enter_error henter] at h
      cases h
      exact .stopped henter
  | ok turns =>
      rw [evalFrom_of_enter_ok henter] at h
      cases ht : turn (evalFrom limits fuel (depth + 1)) turns scope e with
      | none =>
          rw [ht] at h
          cases h
      | some t =>
          rw [ht] at h
          cases t with
          | ends last =>
              cases h
              exact .ends henter ht
          | goesOn scope' e' n => exact .goesOn henter ht h

/-! ## From runs to derivations -/

/-- A run that started after `before` turns has a derivation for the turns since, or a limit ended
it. -/
def Run.Follows (limits : Limits) (before : Nat) (scope : ValueScope) (e : Expr) (run : Run) : Prop :=
  (∃ n, run.turns = before + n ∧ BigStep scope e run.result n) ∨
    ∃ err, run.result = .error err ∧ limits.Stops err

/-- What a turn leaves to do completes a derivation. The rule of the expression itself is counted
before the turn. -/
def Turn.Follows (limits : Limits) (before : Nat) (scope : ValueScope) (e : Expr) : Turn → Prop
  | .ends run =>
    (∃ n, run.turns = before + n ∧ BigStep scope e run.result (n + 1)) ∨
      ∃ err, run.result = .error err ∧ limits.Stops err
  | .goesOn scope' e' turns =>
    ∃ n, turns = before + n ∧
      ∀ r m, BigStep scope' e' r m → BigStep scope e r (n + m + 1)

section Turns

variable {limits : Limits} {inside : Nat → ValueScope → Expr → Option Run}
  (hin : ∀ {before scope e run}, inside before scope e = some run →
    run.Follows limits before scope e)

include hin

/-- An error inside ends the turn, and a rule passes it on. -/
theorem Turn.follows_of_inner_error {before start turns : Nat} {scope : ValueScope} {d e : Expr}
    {err : RuntimeError} (h : inside start scope d = some ⟨.error err, turns⟩)
    (hrule : ∀ n, BigStep scope d (.error err) n →
      ∃ m, start + n = before + m ∧ BigStep scope e (.error err) (m + 1)) :
    (Turn.ends ⟨.error err, turns⟩).Follows limits before scope e := by
  rcases hin h with ⟨n, hturns, hd⟩ | hstop
  · obtain ⟨m, hm, he⟩ := hrule n hd
    exact .inl ⟨m, hturns.trans hm, he⟩
  · exact .inr hstop

theorem Turn.bigStep_of_inner_value {before : Nat} {scope : ValueScope} {d : Expr} {v : Value}
    {turns : Nat} (h : inside before scope d = some ⟨.ok v, turns⟩) :
    ∃ n, turns = before + n ∧ BigStep scope d (.ok v) n := by
  rcases hin h with hd | ⟨err, herr, _⟩
  · exact hd
  · cases herr

theorem Turn.follows {turns : Nat} {scope : ValueScope} {e : Expr} {t : Turn}
    (h : turn inside turns scope e = some t) : t.Follows limits turns scope e := by
  cases e with
  | number text =>
      cases h
      by_cases hn : Numeral.isNumeral text = true
      · by_cases hf : Word64.Fits (Numeral.value text)
        · refine .inl ⟨0, rfl, ?_⟩
          rw [Value.ofLiteral_of_fits hn hf]
          exact .number hn hf
        · refine .inl ⟨0, rfl, ?_⟩
          rw [Value.ofLiteral_of_not_fits hn hf]
          exact .number_overflow hn hf
      · rw [Bool.not_eq_true] at hn
        refine .inl ⟨0, rfl, ?_⟩
        rw [Value.ofLiteral_of_not_numeral hn]
        exact .number_noNumeral hn
  | bool b =>
      cases h
      exact .inl ⟨0, rfl, .bool⟩
  | negate d =>
      rcases withPart_eq_some_iff.mp h with
        ⟨err, k, hrun, rfl⟩ | ⟨v, k, hrun, hv, rfl⟩ | ⟨v, i, k, hrun, hv, h⟩
      · exact follows_of_inner_error hin hrun fun n hn => ⟨n, rfl, .negate_fails hn⟩
      · obtain ⟨n, rfl, hd⟩ := bigStep_of_inner_value hin hrun
        exact .inl ⟨n, rfl, .negate_refuses hd hv⟩
      · obtain ⟨n, rfl, hd⟩ := bigStep_of_inner_value hin hrun
        cases Value.int?_eq_some_iff.mp hv
        cases h
        exact .inl ⟨n, rfl, .negate hd⟩
  | subtract d₁ d₂ =>
      rcases withPart_eq_some_iff.mp h with
        ⟨err, k, hrun, rfl⟩ | ⟨v, k, hrun, hv, rfl⟩ | ⟨v, i, k, hrun, hv, h⟩
      · exact follows_of_inner_error hin hrun fun n hn => ⟨n, rfl, .subtract_fails_left hn⟩
      · obtain ⟨n, rfl, hd⟩ := bigStep_of_inner_value hin hrun
        exact .inl ⟨n, rfl, .subtract_refuses_left hd hv⟩
      · obtain ⟨n, rfl, hd⟩ := bigStep_of_inner_value hin hrun
        cases Value.int?_eq_some_iff.mp hv
        rcases withPart_eq_some_iff.mp h with
          ⟨err, k, hrun₂, rfl⟩ | ⟨w, k, hrun₂, hw, rfl⟩ | ⟨w, j, k, hrun₂, hw, h⟩
        · exact follows_of_inner_error hin hrun₂ fun m hm =>
            ⟨n + m, Nat.add_assoc .., .subtract_fails_right hd hm⟩
        · obtain ⟨m, rfl, hd₂⟩ := bigStep_of_inner_value hin hrun₂
          exact .inl ⟨n + m, Nat.add_assoc .., .subtract_refuses_right hd hd₂ hw⟩
        · obtain ⟨m, rfl, hd₂⟩ := bigStep_of_inner_value hin hrun₂
          cases Value.int?_eq_some_iff.mp hw
          cases h
          exact .inl ⟨n + m, Nat.add_assoc .., .subtract hd hd₂⟩
  | isZero d =>
      rcases withPart_eq_some_iff.mp h with
        ⟨err, k, hrun, rfl⟩ | ⟨v, k, hrun, hv, rfl⟩ | ⟨v, i, k, hrun, hv, h⟩
      · exact follows_of_inner_error hin hrun fun n hn => ⟨n, rfl, .isZero_fails hn⟩
      · obtain ⟨n, rfl, hd⟩ := bigStep_of_inner_value hin hrun
        exact .inl ⟨n, rfl, .isZero_refuses hd hv⟩
      · obtain ⟨n, rfl, hd⟩ := bigStep_of_inner_value hin hrun
        cases Value.int?_eq_some_iff.mp hv
        cases h
        exact .inl ⟨n, rfl, .isZero hd⟩
  | ite d d₁ d₂ =>
      rcases withPart_eq_some_iff.mp h with
        ⟨err, k, hrun, rfl⟩ | ⟨v, k, hrun, hv, rfl⟩ | ⟨v, b, k, hrun, hv, h⟩
      · exact follows_of_inner_error hin hrun fun n hn => ⟨n, rfl, .ite_fails hn⟩
      · obtain ⟨n, rfl, hd⟩ := bigStep_of_inner_value hin hrun
        exact .inl ⟨n, rfl, .ite_refuses hd hv⟩
      · obtain ⟨n, rfl, hd⟩ := bigStep_of_inner_value hin hrun
        cases Value.bool?_eq_some_iff.mp hv
        cases h
        cases b with
        | true => exact ⟨n, rfl, fun _ _ h₁ => .ite_then hd h₁⟩
        | false => exact ⟨n, rfl, fun _ _ h₂ => .ite_else hd h₂⟩
  | identifier x =>
      simp only [turn] at h
      cases hx : scope.value? x with
      | none =>
          rw [hx] at h
          cases h
          exact .inl ⟨0, rfl, .identifier_unbound hx⟩
      | some v =>
          rw [hx] at h
          cases h
          exact .inl ⟨0, rfl, .identifier hx⟩
  | letIn x d₁ d₂ =>
      rcases withValue_eq_some_iff.mp h with ⟨err, k, hrun, rfl⟩ | ⟨v, k, hrun, h⟩
      · exact follows_of_inner_error hin hrun fun n hn => ⟨n, rfl, .letIn_fails hn⟩
      · obtain ⟨n, rfl, hd⟩ := bigStep_of_inner_value hin hrun
        cases h
        exact ⟨n, rfl, fun _ _ h₂ => .letIn hd h₂⟩
  | proc x t d =>
      cases h
      exact .inl ⟨0, rfl, .proc⟩
  | apply d₁ d₂ =>
      rcases withPart_eq_some_iff.mp h with
        ⟨err, k, hrun, rfl⟩ | ⟨v, k, hrun, hv, rfl⟩ | ⟨v, ⟨code, home⟩, k, hrun, hv, h⟩
      · exact follows_of_inner_error hin hrun fun n hn => ⟨n, rfl, .apply_fails hn⟩
      · obtain ⟨n, rfl, hd⟩ := bigStep_of_inner_value hin hrun
        exact .inl ⟨n, rfl, .apply_refuses hd hv⟩
      · obtain ⟨n, rfl, hd⟩ := bigStep_of_inner_value hin hrun
        cases Value.closure?_eq_some_iff.mp hv
        rcases withValue_eq_some_iff.mp h with ⟨err, k, hrun₂, rfl⟩ | ⟨w, k, hrun₂, h⟩
        · exact follows_of_inner_error hin hrun₂ fun m hm =>
            ⟨n + m, Nat.add_assoc .., .apply_fails_argument hd hm⟩
        · obtain ⟨m, rfl, hd₂⟩ := bigStep_of_inner_value hin hrun₂
          cases h
          exact ⟨n + m, Nat.add_assoc .., fun _ _ h => .apply hd hd₂ h⟩
  | letrec t f x s d₁ d₂ =>
      cases h
      exact ⟨0, rfl, fun _ m h => by simpa using BigStep.letrec h⟩
  | assert d₁ d₂ line =>
      rcases withPart_eq_some_iff.mp h with
        ⟨err, k, hrun, rfl⟩ | ⟨v, k, hrun, hv, rfl⟩ | ⟨v, b, k, hrun, hv, h⟩
      · exact follows_of_inner_error hin hrun fun n hn => ⟨n, rfl, .assert_fails hn⟩
      · obtain ⟨n, rfl, hd⟩ := bigStep_of_inner_value hin hrun
        exact .inl ⟨n, rfl, .assert_refuses hd hv⟩
      · obtain ⟨n, rfl, hd⟩ := bigStep_of_inner_value hin hrun
        cases Value.bool?_eq_some_iff.mp hv
        cases b with
        | true =>
            cases h
            exact ⟨n, rfl, fun _ _ h₂ => .assert hd h₂⟩
        | false =>
            cases h
            exact .inl ⟨n, rfl, .assert_false hd⟩

end Turns

/-- A run that ends has a derivation with one rule for each turn, unless a limit ended it. -/
theorem evalFrom_follows {limits : Limits} {fuel depth before : Nat} {scope : ValueScope} {e : Expr}
    {run : Run} (h : evalFrom limits fuel depth before scope e = some run) :
    run.Follows limits before scope e := by
  induction fuel generalizing depth before scope e run with
  | zero => cases h
  | succ fuel ih =>
      cases Run.arises h with
      | stopped henter => exact .inr (Limits.enter_error henter)
      | ends henter ht =>
          obtain rfl := Limits.enter_ok henter
          rcases Turn.follows (fun hd => ih hd) ht with ⟨n, hn, hd⟩ | hstop
          · exact .inl ⟨n + 1, by omega, hd⟩
          · exact .inr hstop
      | goesOn henter ht hrest =>
          obtain rfl := Limits.enter_ok henter
          obtain ⟨n, rfl, hrule⟩ := Turn.follows (fun hd => ih hd) ht
          rcases ih hrest with ⟨m, hm, hd⟩ | hstop
          · exact .inl ⟨n + m + 1, by omega, hrule _ _ hd⟩
          · exact .inr hstop

/-! ## From derivations to runs -/

theorem evalFrom_of_ends {n fuel depth before : Nat} {scope : ValueScope} {e : Expr}
    {r : Except RuntimeError Value} (hfuel : n + 1 ≤ fuel)
    (h : ∀ fuel, n ≤ fuel →
      turn (evalFrom ⟨none, none⟩ fuel (depth + 1)) (before + 1) scope e =
        some (.ends ⟨r, before + 1 + n⟩)) :
    evalFrom ⟨none, none⟩ fuel depth before scope e = some ⟨r, before + (n + 1)⟩ := by
  cases fuel with
  | zero => omega
  | succ fuel =>
      rw [evalFrom, Limits.enter_unlimited]
      simp only [h fuel (by omega), Nat.add_assoc, Nat.add_comm 1 n]

/-- A turn that goes on leaves the rest of the run to the expression in last place. -/
theorem evalFrom_of_goesOn {n m fuel depth before : Nat} {scope scope' : ValueScope} {e e' : Expr}
    {r : Except RuntimeError Value} (hfuel : n + m + 1 ≤ fuel)
    (h : ∀ fuel, n ≤ fuel →
      turn (evalFrom ⟨none, none⟩ fuel (depth + 1)) (before + 1) scope e =
        some (.goesOn scope' e' (before + 1 + n)))
    (hrest : ∀ {fuel depth before}, m ≤ fuel →
      evalFrom ⟨none, none⟩ fuel depth before scope' e' = some ⟨r, before + m⟩) :
    evalFrom ⟨none, none⟩ fuel depth before scope e = some ⟨r, before + (n + m + 1)⟩ := by
  cases fuel with
  | zero => omega
  | succ fuel =>
      rw [evalFrom, Limits.enter_unlimited]
      simp only [h fuel (by omega)]
      rw [hrest (by omega), show before + 1 + n + m = before + (n + m + 1) by omega]

/-- A derivation of `n` rules is a run of `n` turns that uses up at most `n` of fuel. -/
theorem BigStep.evalFrom_eq {scope : ValueScope} {e : Expr} {r : Except RuntimeError Value} {n : Nat}
    (h : BigStep scope e r n) : ∀ {fuel depth before : Nat}, n ≤ fuel →
      evalFrom ⟨none, none⟩ fuel depth before scope e = some ⟨r, before + n⟩ := by
  induction h with
  | number hn hf =>
      intro fuel depth before hfuel
      refine evalFrom_of_ends hfuel fun fuel _ => ?_
      rw [turn, Value.ofLiteral_of_fits hn hf]
  | number_overflow hn hf =>
      intro fuel depth before hfuel
      refine evalFrom_of_ends hfuel fun fuel _ => ?_
      rw [turn, Value.ofLiteral_of_not_fits hn hf]
  | number_noNumeral hn =>
      intro fuel depth before hfuel
      refine evalFrom_of_ends hfuel fun fuel _ => ?_
      rw [turn, Value.ofLiteral_of_not_numeral hn]
  | bool =>
      intro fuel depth before hfuel
      exact evalFrom_of_ends hfuel fun fuel _ => rfl
  | negate _ ih | isZero _ ih =>
      intro fuel depth before hfuel
      refine evalFrom_of_ends hfuel fun fuel hf => ?_
      rw [turn, ih hf]
      rfl
  | negate_fails _ ih | isZero_fails _ ih | subtract_fails_left _ ih | ite_fails _ ih
  | letIn_fails _ ih | apply_fails _ ih | assert_fails _ ih =>
      intro fuel depth before hfuel
      refine evalFrom_of_ends hfuel fun fuel hf => ?_
      rw [turn, ih hf]
      rfl
  | negate_refuses _ hv ih | isZero_refuses _ hv ih | subtract_refuses_left _ hv ih
  | ite_refuses _ hv ih | apply_refuses _ hv ih | assert_refuses _ hv ih =>
      intro fuel depth before hfuel
      refine evalFrom_of_ends hfuel fun fuel hf => ?_
      rw [turn, ih hf, Turn.withPart_refused hv]
      rfl
  | subtract _ _ ih₁ ih₂ =>
      intro fuel depth before hfuel
      refine evalFrom_of_ends hfuel fun fuel hf => ?_
      rw [turn, ih₁ (Nat.le_of_add_right_le hf), Turn.withPart_met rfl,
        ih₂ (Nat.le_of_add_left_le hf), Turn.withPart_met rfl, ← Nat.add_assoc]
      rfl
  | subtract_fails_right _ _ ih₁ ih₂ =>
      intro fuel depth before hfuel
      refine evalFrom_of_ends hfuel fun fuel hf => ?_
      rw [turn, ih₁ (Nat.le_of_add_right_le hf), Turn.withPart_met rfl,
        ih₂ (Nat.le_of_add_left_le hf), ← Nat.add_assoc]
      rfl
  | subtract_refuses_right _ _ hv ih₁ ih₂ =>
      intro fuel depth before hfuel
      refine evalFrom_of_ends hfuel fun fuel hf => ?_
      rw [turn, ih₁ (Nat.le_of_add_right_le hf), Turn.withPart_met rfl,
        ih₂ (Nat.le_of_add_left_le hf), Turn.withPart_refused hv, ← Nat.add_assoc]
      rfl
  | ite_then _ _ ih₁ ih₂ | ite_else _ _ ih₁ ih₂ | assert _ _ ih₁ ih₂ =>
      intro fuel depth before hfuel
      refine evalFrom_of_goesOn hfuel (fun fuel hf => ?_) ih₂
      rw [turn, ih₁ hf, Turn.withPart_met rfl]
      rfl
  | identifier hx | identifier_unbound hx =>
      intro fuel depth before hfuel
      refine evalFrom_of_ends hfuel fun fuel _ => ?_
      rw [turn, hx]
      rfl
  | letIn _ _ ih₁ ih₂ =>
      intro fuel depth before hfuel
      refine evalFrom_of_goesOn hfuel (fun fuel hf => ?_) ih₂
      rw [turn, ih₁ hf]
      rfl
  | proc =>
      intro fuel depth before hfuel
      exact evalFrom_of_ends hfuel fun fuel _ => rfl
  | apply _ _ _ ih₁ ih₂ ih =>
      intro fuel depth before hfuel
      refine evalFrom_of_goesOn hfuel (fun fuel hf => ?_) ih
      rw [turn, ih₁ (Nat.le_of_add_right_le hf), Turn.withPart_met rfl,
        ih₂ (Nat.le_of_add_left_le hf), ← Nat.add_assoc]
      rfl
  | apply_fails_argument _ _ ih₁ ih₂ =>
      intro fuel depth before hfuel
      refine evalFrom_of_ends hfuel fun fuel hf => ?_
      rw [turn, ih₁ (Nat.le_of_add_right_le hf), Turn.withPart_met rfl,
        ih₂ (Nat.le_of_add_left_le hf), ← Nat.add_assoc]
      rfl
  | @letrec _ _ _ _ _ _ _ _ n _ ih =>
      intro fuel depth before hfuel
      have hn : n + 1 = 0 + n + 1 := by omega
      rw [hn] at hfuel ⊢
      exact evalFrom_of_goesOn hfuel (fun _ _ => rfl) ih
  | assert_false _ ih =>
      intro fuel depth before hfuel
      refine evalFrom_of_ends hfuel fun fuel hf => ?_
      rw [turn, ih hf, Turn.withPart_met rfl]
      rfl

/-! ## The evaluator and the rules -/

/-- Without limits a run is a derivation. -/
theorem bigStep_of_evalFrom {fuel depth before : Nat} {scope : ValueScope} {e : Expr} {run : Run}
    (h : evalFrom ⟨none, none⟩ fuel depth before scope e = some run) :
    ∃ n, run.turns = before + n ∧ BigStep scope e run.result n := by
  rcases evalFrom_follows h with hd | ⟨err, _, hstop⟩
  · exact hd
  · exact absurd hstop (Limits.not_stops_unlimited err)

theorem BigStep.evaluate_eq {scope : ValueScope} {e : Expr} {r : Except RuntimeError Value} {n fuel : Nat}
    (h : BigStep scope e r n) (hfuel : n ≤ fuel) :
    evaluate fuel ⟨none, none⟩ scope e 0 = some ⟨r, n⟩ := by
  rw [evaluate, h.evalFrom_eq hfuel, Nat.zero_add]

/-- An expression comes to one result, by one number of rules. -/
theorem BigStep.unique {scope : ValueScope} {e : Expr} {r r' : Except RuntimeError Value} {n n' : Nat}
    (h : BigStep scope e r n) (h' : BigStep scope e r' n') : r = r' ∧ n = n' := by
  have hrun : evalFrom ⟨none, none⟩ (max n n') 0 0 scope e = some ⟨r, 0 + n⟩ :=
    h.evalFrom_eq (Nat.le_max_left n n')
  have hrun' : evalFrom ⟨none, none⟩ (max n n') 0 0 scope e = some ⟨r', 0 + n'⟩ :=
    h'.evalFrom_eq (Nat.le_max_right n n')
  rw [hrun] at hrun'
  simpa using hrun'

/-- Without limits a run of `n` turns is a derivation of `n` rules, of which the counter shows no more than
it counts, and an expression that runs forever is one without a derivation. -/
theorem evaluate_iff_bigStep (scope : ValueScope) (e : Expr) :
    (∀ r n, (∃ fuel, evaluate fuel ⟨none, none⟩ scope e 0 = some ⟨r, n⟩) ↔ BigStep scope e r n) ∧
      (∀ r s, (∃ fuel run, evaluate fuel ⟨none, none⟩ scope e 0 = some run ∧ run.result = r ∧
          run.steps = s) ↔ ∃ n, BigStep scope e r n ∧ s = min n Counter.most) ∧
      ((∀ fuel, evaluate fuel ⟨none, none⟩ scope e 0 = none) ↔ ∀ r n, ¬ BigStep scope e r n) := by
  have hiff : ∀ r n,
      (∃ fuel, evaluate fuel ⟨none, none⟩ scope e 0 = some ⟨r, n⟩) ↔ BigStep scope e r n := by
    intro r n
    constructor
    · rintro ⟨fuel, h⟩
      obtain ⟨m, hm, hd⟩ := bigStep_of_evalFrom h
      rw [show n = m by simpa using hm]
      exact hd
    · intro h
      exact ⟨n, h.evaluate_eq (Nat.le_refl n)⟩
  refine ⟨hiff, fun r s => ?_, ?_⟩
  · constructor
    · rintro ⟨fuel, run, h, rfl, rfl⟩
      exact ⟨run.turns, (hiff ..).mp ⟨fuel, h⟩, rfl⟩
    · rintro ⟨n, hd, rfl⟩
      obtain ⟨fuel, h⟩ := (hiff r n).mpr hd
      exact ⟨fuel, _, h, rfl, rfl⟩
  · constructor
    · intro hnone r n hd
      obtain ⟨fuel, h⟩ := (hiff r n).mpr hd
      rw [hnone fuel] at h
      cases h
    · intro hnone fuel
      cases h : evaluate fuel ⟨none, none⟩ scope e 0 with
      | none => rfl
      | some run => exact absurd ((hiff run.result run.turns).mp ⟨fuel, h⟩) (hnone _ _)

/-! ### Counting down from a large number -/

/-- The body of `f`: it calls itself on one less, down to zero. -/
def descentBody : Expr :=
  .ite (.isZero (.identifier "n")) (.number "0")
    (.apply (.identifier "f") (.subtract (.identifier "n") (.number "1")))

def descentScope : ValueScope :=
  .extendRec "f" ⟨"n", .int, descentBody⟩ .empty

/-- The call of `f` on `2^50`. -/
def descent : Expr :=
  .letrec .int "f" "n" .int descentBody (.apply (.identifier "f") (.number "1125899906842624"))

/-- Each call takes eight rules, and the last one four. -/
theorem bigStep_descentBody {k : Nat} (hk : k ≤ 1125899906842624) :
    BigStep (descentScope.extend "n" (.int k)) descentBody (.ok (.int 0)) (8 * k + 4) := by
  induction k with
  | zero =>
      have hguard : BigStep (descentScope.extend "n" (.int (0 : Nat)))
          (.isZero (.identifier "n")) (.ok (.bool true)) 2 := .isZero (i := 0) (.identifier rfl)
      exact .ite_then hguard (.number rfl (by decide))
  | succ k ih =>
      have hguard : BigStep (descentScope.extend "n" (.int (k + 1 : Nat)))
          (.isZero (.identifier "n")) (.ok (.bool false)) 2 := by
        have hne : (((k + 1 : Nat) : Int) == 0) = false := by
          rw [beq_eq_false_iff_ne]
          omega
        exact hne ▸ .isZero (.identifier rfl)
      have hless : BigStep (descentScope.extend "n" (.int (k + 1 : Nat)))
          (.subtract (.identifier "n") (.number "1")) (.ok (.int k)) 3 := by
        have hwrap : Word64.wrap (((k + 1 : Nat) : Int) - Numeral.value "1") = k := by
          rw [show Numeral.value "1" = 1 from rfl, show ((k + 1 : Nat) : Int) - 1 = k by omega]
          refine Word64.wrap_of_fits ⟨?_, ?_⟩
          · exact Int.le_trans (by decide) (Int.natCast_nonneg k)
          · exact Int.le_trans (Int.ofNat_le.2 (Nat.le_of_succ_le hk)) (by decide)
        exact hwrap ▸ .subtract (.identifier rfl) (.number rfl (by decide))
      have hname : BigStep (descentScope.extend "n" (.int (k + 1 : Nat))) (.identifier "f")
          (.ok (.closure ⟨"n", .int, descentBody⟩ descentScope)) 1 := .identifier rfl
      rw [show 8 * (k + 1) + 4 = 2 + (1 + 3 + (8 * k + 4) + 1) + 1 by omega]
      exact .ite_else hguard (.apply hname hless (ih (Nat.le_of_succ_le hk)))

/-- The result comes by eight rules more than the counter shows turns. -/
theorem descent_steps :
    BigStep .empty descent (.ok (.int 0)) 9007199254741000 ∧
      (∃ fuel run, evaluate fuel ⟨none, none⟩ .empty descent 0 = some run ∧
        run.result = .ok (.int 0) ∧ run.steps = 9007199254740992) ∧
      ¬ ∃ fuel run, evaluate fuel ⟨none, none⟩ .empty descent 0 = some run ∧
        run.result = .ok (.int 0) ∧ run.steps = 9007199254741000 := by
  have hname : BigStep descentScope (.identifier "f")
      (.ok (.closure ⟨"n", .int, descentBody⟩ descentScope)) 1 := .identifier rfl
  have harg : BigStep descentScope (.number "1125899906842624")
      (.ok (.int (1125899906842624 : Nat))) 1 := .number rfl (by decide)
  have hd : BigStep .empty descent (.ok (.int 0)) 9007199254741000 :=
    .letrec (.apply hname harg (bigStep_descentBody (Nat.le_refl _)))
  refine ⟨hd, ⟨_, _, hd.evaluate_eq (Nat.le_refl _), rfl, rfl⟩, ?_⟩
  rintro ⟨fuel, run, -, -, hsteps⟩
  have hmost : run.steps ≤ Counter.most := Counter.shown_le_most _
  rw [hsteps] at hmost
  exact absurd hmost (by decide)

end TypedLet
