import TypedLet.Proofs.Evaluation.Invariant
import TypedLet.Proofs.Evaluation.StepLimit

/-!
# Evaluations on one counter

Several expressions can be evaluated one after the other on one counter of steps. Nothing else passes from
one evaluation to the next: each is the evaluation from zero under what the earlier ones have left of the
limit (`evalFrom_resumed`), however those have ended. An evaluation that ends in the error of the limit
leaves nothing, so every one after it ends in that error at once. A limit that the counter never passes is
not used up, so what is left of the others is told of `Limits.effective`.
-/

namespace TypedLet

/-! ## What is left of a limit -/

/-- The number less a count. -/
def Decimal.minus (d : Decimal) (n : Nat) : Decimal :=
  if 0 ≤ d.exponent then ⟨d.coefficient * tenTo d.exponent.toNat - n, 0⟩
  else ⟨d.coefficient - n * tenTo (-d.exponent).toNat, d.exponent⟩

theorem Decimal.toRat_minus (d : Decimal) (n : Nat) : (d.minus n).toRat = d.toRat - n := by
  obtain ⟨c, e⟩ := d
  by_cases he : 0 ≤ e
  · obtain ⟨m, rfl⟩ := Int.eq_ofNat_of_zero_le he
    simp [minus, toRat, tenTo]
  · obtain ⟨m, rfl⟩ : ∃ m : ℕ, e = -m := ⟨(-e).toNat, by omega⟩
    rw [minus, if_neg he]
    simp [toRat, tenTo, sub_mul]

theorem Decimal.floor_minus (d : Decimal) (n : Nat) : (d.minus n).floor = d.floor - n := by
  rw [floor_eq, floor_eq, toRat_minus, Int.floor_sub_natCast]

namespace Limits

/-- A counter can pass the limit on the steps, if there is one. -/
def Passable (limits : Limits) : Prop :=
  ∀ limit, limits.steps = some limit → limit.floor < Counter.most

theorem passable_effective (limits : Limits) : limits.effective.Passable := by
  intro limit h
  have hfilter := Option.filter_eq_some_iff.1 h
  exact of_decide_eq_true hfilter.2

/-- What is left of the limits when some steps have been counted. -/
def remaining (limits : Limits) (counted : Nat) : Limits :=
  { limits with steps := limits.steps.map fun limit => limit.minus counted }

/-- An error of a run within what is left of the limits. It names the limit that there was at first. -/
def report (limits : Limits) : RuntimeError → RuntimeError
  | .stepLimit left => .stepLimit (limits.steps.getD left)
  | err => err

end Limits

/-- The run that goes on from a count, given the one that counts from zero. -/
def Run.resumed (limits : Limits) (counted : Nat) (run : Run) : Run :=
  ⟨run.result.mapError limits.report, counted + run.turns⟩

def Turn.resumed (limits : Limits) (counted : Nat) : Turn → Turn
  | .ends run => .ends (run.resumed limits counted)
  | .goesOn scope e turns => .goesOn scope e (counted + turns)

/-! ## One evaluation -/

section Resumed

variable (limits : Limits) (counted : Nat)

theorem Limits.depthError?_resumed (depth : Nat) :
    limits.depthError? depth = ((limits.remaining counted).depthError? depth).map limits.report := by
  obtain ⟨_, _ | most⟩ := limits
  · rfl
  · simp only [depthError?, remaining]
    split
    · rfl
    · rfl

theorem Limits.stepError?_resumed (hlimits : limits.Passable) (turns : Nat) :
    limits.stepError? (counted + turns) =
      ((limits.remaining counted).stepError? turns).map limits.report := by
  obtain ⟨_ | limit, _⟩ := limits
  · rfl
  · have hlimit : limit.floor < Counter.most := hlimits limit rfl
    have hleft : (limit.minus counted).floor < Counter.shown turns ↔
        limit.floor < Counter.shown (counted + turns) := by
      rw [Decimal.floor_minus, Counter.lt_shown_iff hlimit, Counter.lt_shown_iff (by omega)]
      omega
    simp only [stepError?, remaining, Option.map_some, hleft]
    split
    · rfl
    · rfl

theorem Limits.enter_resumed (hlimits : limits.Passable) (depth before : Nat) :
    limits.enter depth (counted + before) =
      (((limits.remaining counted).enter depth before).map (counted + ·)).mapError
        (Run.resumed limits counted) := by
  rw [enter, enter, depthError?_resumed limits counted, Nat.add_assoc,
    stepError?_resumed limits counted hlimits]
  cases (limits.remaining counted).depthError? depth with
  | some err => rfl
  | none =>
      cases (limits.remaining counted).stepError? (before + 1) with
      | some err => rfl
      | none => rfl

variable {limits counted}

namespace Turn

theorem withValue_resumed {inner : Option Run} {next next' : Value → Nat → Option Turn}
    (hnext : ∀ v n, next' v (counted + n) = (next v n).map (resumed limits counted)) :
    withValue (inner.map (Run.resumed limits counted)) next' =
      (withValue inner next).map (resumed limits counted) := by
  obtain _ | ⟨err | v, n⟩ := inner
  · rfl
  · rfl
  · exact hnext v n

theorem withPart_resumed {α : Type} {demand : Demand α}
    (hrefusal : ∀ v, limits.report (demand.refusal v) = demand.refusal v) {inner : Option Run}
    {next next' : α → Nat → Option Turn}
    (hnext : ∀ a n, next' a (counted + n) = (next a n).map (resumed limits counted)) :
    withPart demand (inner.map (Run.resumed limits counted)) next' =
      (withPart demand inner next).map (resumed limits counted) := by
  refine withValue_resumed fun v n => ?_
  cases demand.part? v with
  | none => simp [fail, resumed, Run.resumed, Except.mapError, hrefusal]
  | some a => exact hnext a n

end Turn

theorem Limits.report_ofLiteral (text : String) :
    (Value.ofLiteral text).mapError limits.report = Value.ofLiteral text := by
  unfold Value.ofLiteral
  split
  · dsimp only
    split
    · rfl
    · rfl
  · rfl

theorem turn_resumed {inside inside' : Nat → ValueScope → Expr → Option Run}
    (hin : ∀ n scope e, inside' (counted + n) scope e =
      (inside n scope e).map (Run.resumed limits counted)) (turns : Nat) (scope : ValueScope)
    (e : Expr) :
    turn inside' (counted + turns) scope e =
      (turn inside turns scope e).map (Turn.resumed limits counted) := by
  cases e with
  | number text => simp [turn, Turn.resumed, Run.resumed, Limits.report_ofLiteral]
  | bool | proc | letrec => rfl
  | negate d | isZero d | ite d d₁ d₂ =>
      rw [turn, turn, hin]
      exact Turn.withPart_resumed (fun _ => rfl) fun _ _ => rfl
  | subtract d₁ d₂ =>
      rw [turn, turn, hin]
      refine Turn.withPart_resumed (fun _ => rfl) fun i n => ?_
      rw [hin]
      exact Turn.withPart_resumed (fun _ => rfl) fun _ _ => rfl
  | identifier x =>
      simp only [turn]
      cases scope.value? x with
      | none => rfl
      | some v => rfl
  | letIn x d₁ d₂ =>
      rw [turn, turn, hin]
      exact Turn.withValue_resumed fun _ _ => rfl
  | apply d₁ d₂ =>
      rw [turn, turn, hin]
      refine Turn.withPart_resumed (fun _ => rfl) fun callee n => ?_
      rw [hin]
      exact Turn.withValue_resumed fun _ _ => rfl
  | assert d₁ d₂ line =>
      rw [turn, turn, hin]
      refine Turn.withPart_resumed (fun _ => rfl) fun b n => ?_
      cases b with
      | true => rfl
      | false => rfl

variable (limits counted)

/-- An evaluation that goes on from a count is the one from zero under what is left of the limits. -/
theorem evalFrom_resumed (hlimits : limits.Passable) (fuel depth before : Nat) (scope : ValueScope)
    (e : Expr) :
    evalFrom limits fuel depth (counted + before) scope e =
      (evalFrom (limits.remaining counted) fuel depth before scope e).map
        (Run.resumed limits counted) := by
  induction fuel generalizing depth before scope e with
  | zero => rfl
  | succ fuel ih =>
      have henter := limits.enter_resumed counted hlimits depth before
      cases hfresh : (limits.remaining counted).enter depth before with
      | error run =>
          rw [hfresh] at henter
          rw [evalFrom_of_enter_error hfresh, evalFrom_of_enter_error henter]
          rfl
      | ok turns =>
          rw [hfresh] at henter
          rw [evalFrom_of_enter_ok hfresh, evalFrom_of_enter_ok henter,
            turn_resumed (ih (depth + 1))]
          cases turn (evalFrom (limits.remaining counted) fuel (depth + 1)) turns scope e with
          | none => rfl
          | some t =>
              cases t with
              | ends run => rfl
              | goesOn scope e n => exact ih depth n scope e

theorem evaluate_resumed (fuel : Nat) (scope : ValueScope) (e : Expr) :
    evaluate fuel limits scope e counted =
      (evaluate fuel (limits.effective.remaining counted) scope e 0).map
        (Run.resumed limits.effective counted) := by
  rw [← evaluate_effective]
  exact evalFrom_resumed limits.effective counted limits.passable_effective fuel 1 0 scope e

end Resumed

/-! ## The end by the limit -/

section Past

variable {limits : Limits} {limit : Decimal} {fuel depth before n : Nat} {scope : ValueScope} {e : Expr}

/-- A run ends in the error of the limit only past it. -/
theorem evalFrom_stepLimit
    (h : evalFrom limits fuel depth before scope e = some ⟨.error (.stepLimit limit), n⟩) :
    limits.steps = some limit ∧ limit.floor < Counter.shown n := by
  induction fuel generalizing depth before scope e n with
  | zero => cases h
  | succ fuel ih =>
      cases Run.arises h with
      | stopped henter =>
          cases henter ▸ limits.enters depth before with
          | past _ hlimit hpast => exact ⟨hlimit, hpast⟩
      | goesOn _ _ hrest => exact ih hrest
      | ends _ ht =>
          cases Turn.arises ht with
          | inner _ hrun => exact ih hrun
          | raised hraises => cases e <;> cases hraises

/-- Past the limit, an evaluation ends at its first step, if it is not too deep for it. -/
theorem evalFrom_past (hdepth : ∀ most, limits.depth = some most → depth ≤ most)
    (hlimit : limits.steps = some limit) (hpast : limit.floor < Counter.shown before) :
    evalFrom limits (fuel + 1) depth before scope e =
      some ⟨.error (.stepLimit limit), before + 1⟩ := by
  cases henter : limits.enter depth before with
  | error run =>
      rw [evalFrom_of_enter_error henter]
      cases henter ▸ limits.enters depth before with
      | tooDeep hmost hdeep => exact absurd (hdepth _ hmost) hdeep.not_ge
      | past _ hlimit' =>
          rw [hlimit, Option.some.injEq] at hlimit'
          rw [hlimit']
  | ok turns =>
      cases henter ▸ limits.enters depth before with
      | counted _ hsteps =>
          have hwithin := hsteps limit hlimit
          have hmono : Counter.shown before ≤ Counter.shown (before + 1) :=
            Counter.shown_mono (Nat.le_add_right ..)
          omega

/-- After an evaluation that has ended in the error of the limit, every other one does so at its first
step. -/
theorem evaluate_past (h : evaluate fuel limits scope e before = some ⟨.error (.stepLimit limit), n⟩)
    {before' : Nat} (hbefore : Counter.shown n ≤ before') (scope' : ValueScope) (e' : Expr) :
    evaluate fuel limits scope' e' before' = some ⟨.error (.stepLimit limit), before' + 1⟩ := by
  obtain ⟨hlimit, hpast⟩ := evalFrom_stepLimit h
  have hshown : Counter.shown n ≤ Counter.shown before' :=
    Nat.le_min.2 ⟨hbefore, Counter.shown_le_most n⟩
  cases fuel with
  | zero => cases h
  | succ fuel =>
      refine evalFrom_past ?_ hlimit (hpast.trans_le (by exact_mod_cast hshown))
      cases Run.arises h with
      | stopped henter =>
          cases henter ▸ limits.enters 1 before with
          | past hdepth => exact hdepth
      | ends henter | goesOn henter =>
          cases henter ▸ limits.enters 1 before with
          | counted hdepth => exact hdepth

end Past

/-! ## Several evaluations -/

/-- Evaluates expressions one after the other, each in its scope, on one counter. -/
def evaluateAll (fuel : Nat) (limits : Limits) : Nat → List (ValueScope × Expr) → Option (List Run)
  | _, [] => some []
  | before, (scope, e) :: rest => do
    let run ← evaluate fuel limits scope e before
    let runs ← evaluateAll fuel limits run.steps rest
    return run :: runs

/-- What the counter shows after the runs. -/
def counted (start : Nat) : List Run → Nat
  | [] => start
  | run :: runs => counted run.steps runs

section Series

variable {fuel : Nat} {limits : Limits} {start : Nat} {series : List (ValueScope × Expr)}
  {runs : List Run}

theorem evaluateAll_cons_eq_some {scope : ValueScope} {e : Expr} :
    evaluateAll fuel limits start ((scope, e) :: series) = some runs ↔
      ∃ run, evaluate fuel limits scope e start = some run ∧
        ∃ later, evaluateAll fuel limits run.steps series = some later ∧ run :: later = runs := by
  simp [evaluateAll, Option.bind_eq_some_iff]

theorem evaluateAll_length (h : evaluateAll fuel limits start series = some runs) :
    runs.length = series.length := by
  induction series generalizing start runs with
  | nil =>
      cases h
      rfl
  | cons job series ih =>
      obtain ⟨run, -, later, hlater, rfl⟩ := evaluateAll_cons_eq_some.1 h
      simp [ih hlater]

theorem evaluateAll_append (h : evaluateAll fuel limits start series = some runs)
    {series' : List (ValueScope × Expr)} {runs' : List Run}
    (h' : evaluateAll fuel limits (counted start runs) series' = some runs') :
    evaluateAll fuel limits start (series ++ series') = some (runs ++ runs') := by
  induction series generalizing start runs with
  | nil =>
      cases h
      exact h'
  | cons job series ih =>
      obtain ⟨run, hrun, later, hlater, rfl⟩ := evaluateAll_cons_eq_some.1 h
      exact evaluateAll_cons_eq_some.2 ⟨run, hrun, _, ih hlater h', rfl⟩

/-- Each run starts from what the counter shows after the runs before. -/
theorem evaluateAll_getElem? (h : evaluateAll fuel limits start series = some runs) {i : Nat}
    {scope : ValueScope} {e : Expr} (hi : series[i]? = some (scope, e)) :
    ∃ run, runs[i]? = some run ∧
      evaluate fuel limits scope e (counted start (runs.take i)) = some run := by
  induction series generalizing start runs i with
  | nil => cases hi
  | cons job series ih =>
      obtain ⟨run, hrun, later, hlater, rfl⟩ := evaluateAll_cons_eq_some.1 h
      cases i with
      | zero =>
          cases hi
          exact ⟨run, rfl, hrun⟩
      | succ i => exact ih hlater hi

theorem le_steps_of_evaluate (hstart : start ≤ Counter.most) {scope : ValueScope} {e : Expr} {run : Run}
    (h : evaluate fuel limits scope e start = some run) : start ≤ run.steps := by
  rw [evaluate_resumed, Option.map_eq_some_iff] at h
  obtain ⟨fresh, -, rfl⟩ := h
  exact Nat.le_min.2 ⟨Nat.le_add_right .., hstart⟩

theorem evaluateAll_pairwise_le (hstart : start ≤ Counter.most)
    (h : evaluateAll fuel limits start series = some runs) :
    (start :: runs.map Run.steps).Pairwise (· ≤ ·) := by
  rw [← List.isChain_iff_pairwise]
  induction series generalizing start runs with
  | nil =>
      cases h
      exact .singleton _
  | cons job series ih =>
      obtain ⟨run, hrun, later, hlater, rfl⟩ := evaluateAll_cons_eq_some.1 h
      exact .cons_cons (le_steps_of_evaluate hstart hrun) (ih (Counter.shown_le_most _) hlater)

theorem le_counted (h : (start :: runs.map Run.steps).Pairwise (· ≤ ·)) :
    ∀ n ∈ start :: runs.map Run.steps, n ≤ counted start runs := by
  induction runs generalizing start with
  | nil => simp [counted]
  | cons run runs ih =>
      have hlater := ih h.of_cons
      rintro n (_ | ⟨_, hn⟩)
      · exact (List.rel_of_pairwise_cons h List.mem_cons_self).trans (hlater _ List.mem_cons_self)
      · exact hlater n hn

theorem counted_le_most (hstart : start ≤ Counter.most) (runs : List Run) :
    counted start runs ≤ Counter.most := by
  induction runs generalizing start with
  | nil => exact hstart
  | cons run runs ih => exact ih (Counter.shown_le_most _)

/-- Past the limit, a series is one step for each evaluation, as far as the counter counts. -/
theorem evaluateAll_past {limit : Decimal} {n : Nat}
    (h : ∀ before, Counter.shown n ≤ before → ∀ scope e, evaluate fuel limits scope e before =
      some ⟨.error (.stepLimit limit), before + 1⟩) (series : List (ValueScope × Expr)) :
    ∃ later, evaluateAll fuel limits (Counter.shown n) series = some later ∧
      later.map Run.result = List.replicate series.length (.error (.stepLimit limit)) ∧
      later.map Run.steps = (List.range' (n + 1) series.length).map Counter.shown := by
  induction series generalizing n with
  | nil => exact ⟨[], rfl, rfl, rfl⟩
  | cons job series ih =>
      have hsteps : Counter.shown (Counter.shown n + 1) = Counter.shown (n + 1) :=
        Counter.shown_shown_add n 1
      have hnext : Counter.shown n ≤ Counter.shown (n + 1) := Counter.shown_mono (Nat.le_succ n)
      obtain ⟨later, hlater, hresults, hcounts⟩ := ih fun before hbefore => h before (hnext.trans hbefore)
      rw [← hsteps] at hlater
      refine ⟨⟨.error (.stepLimit limit), Counter.shown n + 1⟩ :: later, ?_, ?_, ?_⟩
      · exact evaluateAll_cons_eq_some.2 ⟨_, h _ le_rfl _ _, later, hlater, rfl⟩
      · rw [List.map_cons, hresults, List.length_cons, List.replicate_succ]
      · rw [List.map_cons, hcounts, Run.steps, hsteps, List.length_cons, List.range'_succ, List.map_cons]

/-- Evaluations on one counter share nothing else. Each is the evaluation from zero under what is left of
the limit by then, except that an error names the whole limit, and the counter grows by the steps of that
one, as far as it counts. A limit that it never passes is none. So the counter never goes back, and after
the first run that passes the limit each evaluation, of any expression, ends in the error of the limit and
counts one step, until the counter stands still. -/
theorem evaluateAll_sharesCounter (hstart : start ≤ Counter.most)
    (h : evaluateAll fuel limits start series = some runs) :
    runs.length = series.length ∧
    (∀ (i : Nat) scope e, series[i]? = some (scope, e) →
      ∃ run fresh, runs[i]? = some run ∧
        evaluate fuel (limits.effective.remaining (counted start (runs.take i))) scope e 0 =
          some fresh ∧
        run.result = fresh.result.mapError limits.effective.report ∧
        run.steps = min (counted start (runs.take i) + fresh.steps) Counter.most) ∧
    (start :: runs.map Run.steps).Pairwise (· ≤ ·) ∧
    ∀ limit, (∃ run ∈ runs, run.result = .error (.stepLimit limit)) →
      limits.steps = some limit ∧ limit.toRat < Counter.most ∧
      (RuntimeError.stepLimit limit).message = "evaluation exceeded " ++ limit.render ++ " steps" ∧
      ∀ series', ∃ later,
        evaluateAll fuel limits start (series ++ series') = some (runs ++ later) ∧
        later.map Run.result = List.replicate series'.length (.error (.stepLimit limit)) ∧
        later.map Run.steps =
          (List.range' (counted start runs + 1) series'.length).map (min · Counter.most) := by
  have hpairwise := evaluateAll_pairwise_le hstart h
  refine ⟨evaluateAll_length h, fun i scope e hi => ?_, hpairwise, ?_⟩
  · obtain ⟨run, hrun, heval⟩ := evaluateAll_getElem? h hi
    rw [evaluate_resumed, Option.map_eq_some_iff] at heval
    obtain ⟨fresh, hfresh, rfl⟩ := heval
    exact ⟨_, fresh, hrun, hfresh, rfl, (Counter.shown_add_shown ..).symm⟩
  · rintro limit ⟨⟨_, n⟩, hmem, rfl⟩
    obtain ⟨i, hi⟩ := List.getElem?_of_mem hmem
    obtain ⟨hlt, -⟩ := List.getElem?_eq_some_iff.1 hi
    rw [evaluateAll_length h] at hlt
    obtain ⟨run, hrun, heval⟩ := evaluateAll_getElem? h (List.getElem?_eq_getElem hlt)
    cases hi.symm.trans hrun
    obtain ⟨hlimit, hpast⟩ := evalFrom_stepLimit heval
    have hmost : limit.floor < Counter.most :=
      hpast.trans_le (by exact_mod_cast Counter.shown_le_most n)
    refine ⟨hlimit, (limit.floor_lt_iff _).1 hmost, rfl, fun series' => ?_⟩
    have hle : Counter.shown n ≤ counted start runs :=
      le_counted hpairwise _ (List.mem_cons_of_mem _ (List.mem_map_of_mem hmem))
    have hshown : Counter.shown (counted start runs) = counted start runs :=
      Counter.shown_of_le (counted_le_most hstart runs)
    obtain ⟨later, hlater, hresults, hcounts⟩ :=
      evaluateAll_past (fun before hbefore => evaluate_past heval (hle.trans (hshown ▸ hbefore))) series'
    exact ⟨later, evaluateAll_append h (hshown ▸ hlater), hresults, hcounts⟩

end Series

/-! ### A difference, a failed assertion and a difference that is cut off -/

def difference : Expr := .subtract (.number "1") (.number "2")

def differenceSeries : List (ValueScope × Expr) :=
  [(.empty, difference), (.empty, .assert (.bool false) difference (some 1)), (.empty, difference)]

/-- The limit is 6. The second difference starts after five steps, so the one from zero has a limit of 1
and names that in its error. Afterwards a literal that does not fit comes to the same error as a
difference. -/
theorem differenceSeries_evaluateAll :
    evaluateAll 4 ⟨some (.ofInt 6), none⟩ 0 differenceSeries =
      some [⟨.ok (.int (-1)), 3⟩, ⟨.error (.assertionFailed (some 1)), 5⟩,
        ⟨.error (.stepLimit (.ofInt 6)), 7⟩] ∧
    evaluate 4 ((⟨some (.ofInt 6), none⟩ : Limits).effective.remaining 5) .empty difference 0 =
      some ⟨.error (.stepLimit (.ofInt 1)), 2⟩ ∧
    ∃ later, evaluateAll 4 ⟨some (.ofInt 6), none⟩ 0
        (differenceSeries ++ [(.empty, .number "9223372036854775808"), (.empty, difference)]) =
      some ([⟨.ok (.int (-1)), 3⟩, ⟨.error (.assertionFailed (some 1)), 5⟩,
        ⟨.error (.stepLimit (.ofInt 6)), 7⟩] ++ later) ∧
      later.map Run.result = [.error (.stepLimit (.ofInt 6)), .error (.stepLimit (.ofInt 6))] ∧
      later.map Run.steps = [8, 9] := by
  have hseries : evaluateAll 4 ⟨some (.ofInt 6), none⟩ 0 differenceSeries =
      some [⟨.ok (.int (-1)), 3⟩, ⟨.error (.assertionFailed (some 1)), 5⟩,
        ⟨.error (.stepLimit (.ofInt 6)), 7⟩] := by rfl
  obtain ⟨-, -, -, hpast⟩ := evaluateAll_sharesCounter (Nat.zero_le _) hseries
  obtain ⟨-, -, -, hlater⟩ := hpast (.ofInt 6) ⟨⟨.error (.stepLimit (.ofInt 6)), 7⟩, by simp, rfl⟩
  obtain ⟨later, hlater, hresults, hcounts⟩ :=
    hlater [(.empty, .number "9223372036854775808"), (.empty, difference)]
  exact ⟨hseries, rfl, later, hlater, hresults, hcounts⟩

/-- The limit is the last one that is passed. The loop leaves the counter at `2^53`, and the literal after
it fails too, but adds nothing to the counter, though it takes one step on a counter of its own. -/
theorem loopSeries_evaluateAll :
    ∃ fuel first second fresh,
      evaluateAll fuel ⟨some (.ofInt 9007199254740991), none⟩ 0
        [(loopScope, loopCall), (.empty, .number "1")] = some [first, second] ∧
      first.result = .error (.stepLimit (.ofInt 9007199254740991)) ∧
      second.result = .error (.stepLimit (.ofInt 9007199254740991)) ∧
      evaluate fuel ((⟨some (.ofInt 9007199254740991), none⟩ : Limits).remaining first.steps) .empty
        (.number "1") 0 = some fresh ∧
      first.steps = 9007199254740992 ∧ fresh.steps = 1 ∧ second.steps = 9007199254740992 := by
  obtain ⟨fuel, hfuel⟩ : ∃ fuel, ⌊(Decimal.ofInt 9007199254740991).toRat⌋₊ < fuel + 1 :=
    ⟨_, Nat.lt_succ_self _⟩
  have hloop : evaluate (fuel + 1) ⟨some (.ofInt 9007199254740991), none⟩ loopScope loopCall 0 =
      some ⟨.error (.stepLimit (.ofInt 9007199254740991)), 9007199254740992⟩ := by
    rcases evaluate_cases (by decide) hfuel loopScope loopCall with ⟨run, hrun, -⟩ | ⟨-, hlimited⟩
    · rw [evaluate, evalFrom_loopCall] at hrun
      cases hrun
    · exact hlimited
  have hnext := evaluate_past hloop (Counter.shown_le _) .empty (.number "1")
  refine ⟨fuel + 1, ⟨_, 9007199254740992⟩, ⟨_, 9007199254740993⟩,
    ⟨.error (.stepLimit (.ofInt (-1))), 1⟩, ?_, rfl, rfl, ?_, rfl, rfl, rfl⟩
  · exact evaluateAll_cons_eq_some.2 ⟨_, hloop, _, evaluateAll_cons_eq_some.2 ⟨_, hnext, _, rfl, rfl⟩, rfl⟩
  · exact evalFrom_of_enter_error rfl .empty (.number "1")

end TypedLet
