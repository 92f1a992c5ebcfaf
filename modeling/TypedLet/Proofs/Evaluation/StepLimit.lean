import Mathlib.Data.Rat.Floor
import TypedLet.Proofs.Evaluation.Refinement

/-!
# The step limit

A run with a step limit is compared with the run of the same fuel that has none. They are the same as
long as the limit allows every turn of it. Where it does not, the limited run ends one turn behind the
limit, also if the other one never ends (`Cut`). A run that lacks fuel has taken as many turns as it had
fuel, so a limited run ends if it has more fuel than the limit allows turns. The limit may be negative,
and it may lie between two integers. But it has to be one that the counter can pass: where the counter
stands still, and from there on, a limit is none (`Limits.effective`).
-/

namespace TypedLet

/-! ## Decimal numbers -/

namespace Decimal

/-- The number that is meant. -/
def toRat (d : Decimal) : ℚ :=
  d.coefficient * 10 ^ d.exponent

theorem floor_eq (d : Decimal) : d.floor = ⌊d.toRat⌋ := by
  obtain ⟨c, e⟩ := d
  by_cases he : 0 ≤ e
  · obtain ⟨n, rfl⟩ := Int.eq_ofNat_of_zero_le he
    have hrat : toRat ⟨c, n⟩ = (c * 10 ^ n : ℤ) := by simp [toRat]
    rw [hrat, Int.floor_intCast]
    simp [floor, tenTo]
  · obtain ⟨n, rfl⟩ : ∃ n : ℕ, e = -n := ⟨(-e).toNat, by omega⟩
    have hrat : toRat ⟨c, -n⟩ = (c : ℚ) / (10 ^ n : ℕ) := by simp [toRat, div_eq_mul_inv]
    rw [hrat, Rat.floor_intCast_div_natCast, floor, if_neg he]
    simp [tenTo]

/-- A count is above the limit when it is above its floor. -/
theorem floor_lt_iff (d : Decimal) (n : ℕ) : d.floor < n ↔ d.toRat < n := by
  rw [floor_eq, Int.floor_lt, Int.cast_natCast]

theorem toNat_floor (d : Decimal) : d.floor.toNat = ⌊d.toRat⌋₊ := by
  rw [floor_eq, Int.floor_toNat]

theorem le_floor_iff (d : Decimal) (n : ℕ) : (n : ℤ) ≤ d.floor ↔ (n : ℚ) ≤ d.toRat := by
  rw [floor_eq, Int.le_floor, Int.cast_natCast]

end Decimal

/-! ## Runs that a limit cuts off -/

/-- The number of turns by the end of this one. -/
def Turn.turns : Turn → Nat
  | .ends run => run.turns
  | .goesOn _ _ turns => turns

/-- The end of a run that takes more turns than the limit allows. -/
def Decimal.stop (limit : Decimal) : Run :=
  ⟨.error (.stepLimit limit), limit.floor.toNat + 1⟩

section Cut

variable {α : Type} (turns : α → Nat) (stop : α) (most : Int) (fuel start : Nat)

/-- What a limit of `most` turns makes of an outcome. It keeps an outcome within the limit, and cuts off
one beyond it or one that does not come. Where the fuel after `start` turns is too small for both, the
limit allows at least the turns that the fuel pays for. -/
inductive Cut : Option α → Option α → Prop where
  | starved (h : start + fuel ≤ most) : Cut none none
  | kept {a : α} (h : turns a ≤ most) : Cut (some a) (some a)
  | stopped {free : Option α} (h : ∀ a, free = some a → most < turns a) : Cut free (some stop)

/-- The outcome comes no earlier than `start`, and if the limit is not passed by then, the limited one is
what the limit makes of it. -/
structure CutFrom (free limited : Option α) : Prop where
  le : ∀ a, free = some a → start ≤ turns a
  cut : start ≤ most → Cut turns stop most fuel start free limited

variable {turns stop most fuel start}

theorem Cut.mono {fuel' start' : Nat} {free limited : Option α}
    (h : Cut turns stop most fuel' start' free limited) (hsum : start + fuel ≤ start' + fuel') :
    Cut turns stop most fuel start free limited := by
  cases h with
  | starved h => exact .starved (by omega)
  | kept h => exact .kept h
  | stopped h => exact .stopped h

theorem CutFrom.of_turns {a : α} (h : turns a = start) :
    CutFrom turns stop most fuel start (some a) (some a) where
  le := fun _ ha => by cases ha; omega
  cut := fun hstart => .kept (h ▸ hstart)

/-- What is done with a limited outcome is what the limit makes of the same done without it, if that
leaves an end by the limit as it is. -/
theorem CutFrom.bind {free limited : Option α} (h : CutFrom turns stop most fuel start free limited)
    {β : Type} {turns' : β → Nat} {stop' : β} {next next' : α → Option β}
    (hnext : ∀ a, CutFrom turns' stop' most fuel (turns a) (next a) (next' a))
    (hstop : next' stop = some stop') :
    CutFrom turns' stop' most fuel start (free.bind next) (limited.bind next') := by
  have hle : ∀ b, free.bind next = some b → ∃ a, free = some a ∧ turns a ≤ turns' b := by
    intro b hb
    obtain ⟨a, ha, hb⟩ := Option.bind_eq_some_iff.1 hb
    exact ⟨a, ha, (hnext a).le b hb⟩
  constructor
  · intro b hb
    obtain ⟨a, ha, hturns⟩ := hle b hb
    exact Nat.le_trans (h.le a ha) hturns
  · intro hstart
    cases h.cut hstart with
    | starved hmost => exact .starved hmost
    | kept hmost => exact ((hnext _).cut hmost).mono (Nat.add_le_add_right (h.le _ rfl) fuel)
    | stopped hbeyond =>
        rw [Option.bind_some, hstop]
        refine .stopped fun b hb => ?_
        obtain ⟨a, ha, hturns⟩ := hle b hb
        have := hbeyond a ha
        omega

theorem Cut.cases {free limited : Option α} (h : Cut turns stop most fuel start free limited) :
    (free = none ∧ limited = none ∧ start + fuel ≤ most) ∨
      (∃ a, free = some a ∧ limited = some a ∧ turns a ≤ most) ∨
        ((∀ a, free = some a → most < turns a) ∧ limited = some stop) := by
  cases h with
  | starved h => exact .inl ⟨rfl, rfl, h⟩
  | kept h => exact .inr (.inl ⟨_, rfl, rfl, h⟩)
  | stopped h => exact .inr (.inr ⟨h, rfl⟩)

end Cut

section Turns

variable (limit : Decimal)

/-- The runs without a limit and with the limit. -/
abbrev Run.CutFrom : Nat → Nat → Option Run → Option Run → Prop :=
  TypedLet.CutFrom Run.turns limit.stop limit.floor

/-- The turns without a limit and with the limit. -/
abbrev Turn.CutFrom : Nat → Nat → Option Turn → Option Turn → Prop :=
  TypedLet.CutFrom Turn.turns (.ends limit.stop) limit.floor

end Turns

namespace Turn

variable {limit : Decimal} {fuel start : Nat}

theorem withValue_eq_bind (inner : Option Run) (next : Value → Nat → Option Turn) :
    withValue inner next = inner.bind fun run =>
      match run.result with
      | .error err => fail err run.turns
      | .ok v => next v run.turns := by
  obtain _ | ⟨err | v, n⟩ := inner <;> rfl

theorem run_eq_bind (rest : Nat → ValueScope → Expr → Option Run) (turn : Option Turn) :
    run rest turn = turn.bind fun t =>
      match t with
      | .ends run => some run
      | .goesOn scope e turns => rest turns scope e := by
  obtain _ | ⟨run⟩ | ⟨scope, e, turns⟩ := turn <;> rfl

theorem withValue_cutFrom {free limited : Option Run} (h : Run.CutFrom limit fuel start free limited)
    {next next' : Value → Nat → Option Turn}
    (hnext : ∀ v n, CutFrom limit fuel n (next v n) (next' v n)) :
    CutFrom limit fuel start (withValue free next) (withValue limited next') := by
  rw [withValue_eq_bind, withValue_eq_bind]
  refine h.bind (fun run => ?_) rfl
  obtain ⟨err | v, n⟩ := run
  · exact .of_turns rfl
  · exact hnext v n

theorem withPart_cutFrom {α : Type} {demand : Demand α} {free limited : Option Run}
    (h : Run.CutFrom limit fuel start free limited) {next next' : α → Nat → Option Turn}
    (hnext : ∀ a n, CutFrom limit fuel n (next a n) (next' a n)) :
    CutFrom limit fuel start (withPart demand free next) (withPart demand limited next') := by
  refine withValue_cutFrom h fun v n => ?_
  cases demand.part? v with
  | none => exact .of_turns rfl
  | some a => exact hnext a n

/-- What a limit makes of the runs inside it makes of the turn. -/
theorem cutFrom {inside inside' : Nat → ValueScope → Expr → Option Run}
    (hin : ∀ n scope e, Run.CutFrom limit fuel n (inside n scope e) (inside' n scope e))
    (scope : ValueScope) (e : Expr) :
    CutFrom limit fuel start (turn inside start scope e) (turn inside' start scope e) := by
  cases e with
  | number | bool | proc | letrec => exact .of_turns rfl
  | negate d | isZero d => exact withPart_cutFrom (hin ..) fun _ _ => .of_turns rfl
  | ite d d₁ d₂ => exact withPart_cutFrom (hin ..) fun _ _ => .of_turns rfl
  | subtract d₁ d₂ =>
      refine withPart_cutFrom (hin ..) fun _ _ => ?_
      exact withPart_cutFrom (hin ..) fun _ _ => .of_turns rfl
  | identifier x =>
      simp only [turn]
      cases scope.value? x with
      | none => exact .of_turns rfl
      | some v => exact .of_turns rfl
  | letIn x d₁ d₂ => exact withValue_cutFrom (hin ..) fun _ _ => .of_turns rfl
  | apply d₁ d₂ =>
      refine withPart_cutFrom (hin ..) fun _ _ => ?_
      exact withValue_cutFrom (hin ..) fun _ _ => .of_turns rfl
  | assert d₁ d₂ line =>
      refine withPart_cutFrom (hin ..) fun b _ => ?_
      cases b with
      | true => exact .of_turns rfl
      | false => exact .of_turns rfl

/-- What a limit makes of the turn and of the rest makes of the run. -/
theorem run_cutFrom {free limited : Option Turn} (h : CutFrom limit fuel start free limited)
    {rest rest' : Nat → ValueScope → Expr → Option Run}
    (hrest : ∀ n scope e, Run.CutFrom limit fuel n (rest n scope e) (rest' n scope e)) :
    Run.CutFrom limit fuel start (run rest free) (run rest' limited) := by
  rw [run_eq_bind, run_eq_bind]
  refine h.bind (fun t => ?_) rfl
  cases t with
  | ends r => exact .of_turns rfl
  | goesOn scope e n => exact hrest n scope e

end Turn

/-! ## Runs -/

theorem Limits.enter_within {limit : Decimal} {before : Nat} (h : (before + 1 : Nat) ≤ limit.floor)
    (depth : Nat) : (⟨some limit, none⟩ : Limits).enter depth before = .ok (before + 1) := by
  have hshown : Counter.shown (before + 1) ≤ limit.floor :=
    Int.le_trans (Int.ofNat_le.2 (Counter.shown_le _)) h
  simp only [enter, depthError?, stepError?, if_neg (Int.not_lt.mpr hshown)]

theorem Limits.enter_beyond {limit : Decimal} (hlimit : limit.floor < Counter.most) {before : Nat}
    (h : limit.floor < (before + 1 : Nat)) (depth : Nat) :
    (⟨some limit, none⟩ : Limits).enter depth before =
      .error ⟨.error (.stepLimit limit), before + 1⟩ := by
  have hshown := (Counter.lt_shown_iff hlimit _).2 h
  simp only [enter, depthError?, stepError?, if_pos hshown]

/-- A limited run is what the limit makes of the run without a limit. -/
theorem evalFrom_cutFrom {limit : Decimal} (hlimit : limit.floor < Counter.most)
    (fuel depth before : Nat) (scope : ValueScope) (e : Expr) :
    Run.CutFrom limit fuel before (evalFrom ⟨none, none⟩ fuel depth before scope e)
      (evalFrom ⟨some limit, none⟩ fuel depth before scope e) := by
  induction fuel generalizing depth before scope e with
  | zero => exact ⟨fun _ h => (nomatch h), fun h => .starved (by simpa using h)⟩
  | succ fuel ih =>
      rw [evalFrom_of_enter_ok (Limits.enter_unlimited depth before)]
      have hturn : Turn.CutFrom limit fuel (before + 1) _ _ := Turn.cutFrom (ih (depth + 1)) scope e
      have hrun := Turn.run_cutFrom hturn (ih depth)
      refine ⟨fun r hr => Nat.le_of_succ_le (hrun.le r hr), fun hbefore => ?_⟩
      by_cases hmost : (before + 1 : Nat) ≤ limit.floor
      · rw [evalFrom_of_enter_ok (Limits.enter_within hmost depth)]
        exact (hrun.cut hmost).mono (by omega)
      · have hbeyond := Int.not_le.mp hmost
        have hstop : limit.stop = ⟨.error (.stepLimit limit), before + 1⟩ := by
          rw [Decimal.stop, show limit.floor.toNat = before by omega]
        rw [evalFrom_of_enter_error (Limits.enter_beyond hlimit hbeyond depth), ← hstop]
        refine .stopped fun r hr => ?_
        have := hrun.le r hr
        omega

/-! ## Limits that the counter does not pass -/

/-- The limits without a bound on the steps that no counter passes. -/
def Limits.effective (limits : Limits) : Limits :=
  { limits with steps := limits.steps.filter fun limit => limit.floor < Counter.most }

theorem Limits.effective_of_lt {limit : Decimal} (h : limit.floor < Counter.most) (depth : Option Nat) :
    (⟨some limit, depth⟩ : Limits).effective = ⟨some limit, depth⟩ := by
  simp [effective, Option.filter, h]

theorem Limits.effective_of_le {limit : Decimal} (h : Counter.most ≤ limit.floor) (depth : Option Nat) :
    (⟨some limit, depth⟩ : Limits).effective = ⟨none, depth⟩ := by
  simp [effective, Option.filter, h]

theorem Limits.stepError?_effective (limits : Limits) (turns : Nat) :
    limits.effective.stepError? turns = limits.stepError? turns := by
  obtain ⟨_ | limit, depth⟩ := limits
  · rfl
  · by_cases h : limit.floor < Counter.most
    · rw [effective_of_lt h]
    · rw [effective_of_le (Int.not_lt.mp h)]
      simp only [stepError?, if_neg (Counter.not_lt_shown (Int.not_lt.mp h) turns)]

/-- A run looks at the limits only to open an expression. -/
theorem evalFrom_congr_limits {limits limits' : Limits} (h : limits.enter = limits'.enter) (fuel : Nat) :
    evalFrom limits fuel = evalFrom limits' fuel := by
  induction fuel with
  | zero => rfl
  | succ fuel ih =>
      funext depth before scope e
      rw [evalFrom, evalFrom, h, ih]

theorem evaluate_effective (fuel : Nat) (limits : Limits) (scope : ValueScope) (e : Expr)
    (before : Nat) : evaluate fuel limits.effective scope e before = evaluate fuel limits scope e before := by
  have henter : limits.effective.enter = limits.enter := by
    funext depth before
    unfold Limits.enter
    rw [Limits.stepError?_effective]
    rfl
  rw [evaluate, evaluate, evalFrom_congr_limits henter]

/-- A limit from the number on where the counter stands still is none. -/
theorem evaluate_of_most_le {limit : Decimal} (h : Counter.most ≤ limit.floor) (fuel : Nat)
    (scope : ValueScope) (e : Expr) (before : Nat) :
    evaluate fuel ⟨some limit, none⟩ scope e before = evaluate fuel ⟨none, none⟩ scope e before := by
  rw [← evaluate_effective, Limits.effective_of_le h]

/-! ## Evaluation under a limit -/

/-- A run of an expression on its own is what the limit makes of it, also if the limit allows no turn. -/
theorem evaluate_cut {limit : Decimal} (hlimit : limit.floor < Counter.most) {fuel : Nat}
    (hfuel : 0 < fuel) (scope : ValueScope) (e : Expr) :
    Cut Run.turns limit.stop limit.floor fuel 0 (evaluate fuel ⟨none, none⟩ scope e 0)
      (evaluate fuel ⟨some limit, none⟩ scope e 0) := by
  have hcut := evalFrom_cutFrom hlimit fuel 1 0 scope e
  by_cases hmost : 0 ≤ limit.floor
  · exact hcut.cut hmost
  · obtain ⟨fuel, rfl⟩ := Nat.exists_eq_add_of_lt hfuel
    have hstop : limit.stop = ⟨.error (.stepLimit limit), 1⟩ := by
      rw [Decimal.stop, show limit.floor.toNat = 0 by omega]
    rw [Nat.zero_add] at hcut ⊢
    rw [evaluate, evaluate, evalFrom_of_enter_error (Limits.enter_beyond hlimit (by omega) 1), ← hstop]
    refine .stopped fun r _ => ?_
    omega

/-- With more fuel than the limit allows turns, a run is kept or cut off. -/
theorem evaluate_cases {limit : Decimal} (hlimit : limit.floor < Counter.most) {fuel : Nat}
    (hfuel : ⌊limit.toRat⌋₊ < fuel) (scope : ValueScope) (e : Expr) :
    (∃ run : Run, evaluate fuel ⟨none, none⟩ scope e 0 = some run ∧
      evaluate fuel ⟨some limit, none⟩ scope e 0 = some run ∧ run.turns ≤ limit.toRat) ∨
    ((∀ run : Run, evaluate fuel ⟨none, none⟩ scope e 0 = some run → limit.toRat < run.turns) ∧
      evaluate fuel ⟨some limit, none⟩ scope e 0 = some limit.stop) := by
  rw [← Decimal.toNat_floor] at hfuel
  rcases (evaluate_cut hlimit (Nat.zero_lt_of_lt hfuel) scope e).cases with
    ⟨_, _, hstarved⟩ | ⟨run, hfree, hlimited, hmost⟩ | ⟨hbeyond, hlimited⟩
  · omega
  · exact .inl ⟨run, hfree, hlimited, (limit.le_floor_iff _).1 hmost⟩
  · exact .inr ⟨fun run hrun => (limit.floor_lt_iff _).1 (hbeyond run hrun), hlimited⟩

section Mono

variable {limit : Decimal} {fuel : Nat} {scope : ValueScope} {e : Expr} {run : Run}

theorem fuel_pos_of_evaluate {limits : Limits} (h : evaluate fuel limits scope e 0 = some run) :
    0 < fuel := by
  cases fuel with
  | zero => cases h
  | succ fuel => exact Nat.succ_pos fuel

/-- A limit that allows the turns of a run keeps it. -/
theorem evaluate_of_turns_le (h : evaluate fuel ⟨none, none⟩ scope e 0 = some run)
    (hturns : run.turns ≤ limit.floor) : evaluate fuel ⟨some limit, none⟩ scope e 0 = some run := by
  by_cases hlimit : limit.floor < Counter.most
  · rcases (evaluate_cut hlimit (fuel_pos_of_evaluate h) scope e).cases with
      ⟨hnone, _⟩ | ⟨_, hfree, hlimited, _⟩ | ⟨hbeyond, _⟩
    · rw [h] at hnone
      cases hnone
    · rw [hlimited, ← hfree, h]
    · have := hbeyond run h
      omega
  · rw [evaluate_of_most_le (Int.not_lt.mp hlimit), h]

/-- A limited run that does not end by the limit is the run without one, and the limit allows its turns
or is none. -/
theorem evaluate_free_of_limited (h : evaluate fuel ⟨some limit, none⟩ scope e 0 = some run)
    (hrun : ∀ err, run.result = .error err → err.kind ≠ .stepLimit) :
    evaluate fuel ⟨none, none⟩ scope e 0 = some run ∧
      (run.turns ≤ limit.floor ∨ Counter.most ≤ limit.floor) := by
  by_cases hlimit : limit.floor < Counter.most
  · rcases (evaluate_cut hlimit (fuel_pos_of_evaluate h) scope e).cases with
      ⟨_, hnone, _⟩ | ⟨run', hfree, hlimited, hmost⟩ | ⟨_, hstop⟩
    · rw [hnone] at h
      cases h
    · rw [hlimited, Option.some.injEq] at h
      subst h
      exact ⟨hfree, .inl hmost⟩
    · rw [hstop, Option.some.injEq] at h
      subst h
      exact absurd rfl (hrun _ rfl)
  · have hmost := Int.not_lt.mp hlimit
    rw [evaluate_of_most_le hmost] at h
    exact ⟨h, .inr hmost⟩

/-- What does not come from a limit comes without one, and with every greater one. -/
theorem evaluate_mono (h : evaluate fuel ⟨some limit, none⟩ scope e 0 = some run)
    (hrun : ∀ err, run.result = .error err → err.kind ≠ .stepLimit) :
    evaluate fuel ⟨none, none⟩ scope e 0 = some run ∧
      ∀ limit' : Decimal, limit.toRat ≤ limit'.toRat →
        evaluate fuel ⟨some limit', none⟩ scope e 0 = some run := by
  obtain ⟨hfree, hlimit⟩ := evaluate_free_of_limited h hrun
  refine ⟨hfree, fun limit' hle => ?_⟩
  have hfloor : limit.floor ≤ limit'.floor := by
    rw [Decimal.floor_eq, Decimal.floor_eq]
    exact Int.floor_mono hle
  rcases hlimit with hturns | hmost
  · exact evaluate_of_turns_le hfree (hturns.trans hfloor)
  · rw [evaluate_of_most_le (hmost.trans hfloor), hfree]

end Mono

/-- With a limit below the number where the counter stands still, every evaluation ends. It ends as
without one, after the same steps, if the limit allows these; and if it does not, or the evaluation without
a limit never ends, it ends in the error of the limit at the first step beyond it. A limit from that number
on is none. So what does not come from a limit comes with every greater one, and with none. -/
theorem evaluate_stepLimit (scope : ValueScope) (e : Expr) (limit : Decimal) :
    (limit.toRat < Counter.most →
      (∀ fuel, ⌊limit.toRat⌋₊ < fuel →
        ∃ run, evaluate fuel ⟨some limit, none⟩ scope e 0 = some run) ∧
      (∀ fuel r n, evaluate fuel ⟨none, none⟩ scope e 0 = some ⟨r, n⟩ →
        ∀ fuel', ⌊limit.toRat⌋₊ < fuel' →
          (n ≤ limit.toRat → evaluate fuel' ⟨some limit, none⟩ scope e 0 = some ⟨r, n⟩ ∧
            Run.steps ⟨r, n⟩ = n) ∧
          (limit.toRat < n → evaluate fuel' ⟨some limit, none⟩ scope e 0 =
            some ⟨.error (.stepLimit limit), ⌊limit.toRat⌋₊ + 1⟩)) ∧
      ((∀ fuel, evaluate fuel ⟨none, none⟩ scope e 0 = none) →
        ∀ fuel, ⌊limit.toRat⌋₊ < fuel → evaluate fuel ⟨some limit, none⟩ scope e 0 =
          some ⟨.error (.stepLimit limit), ⌊limit.toRat⌋₊ + 1⟩) ∧
      Run.steps ⟨.error (.stepLimit limit), ⌊limit.toRat⌋₊ + 1⟩ = ⌊limit.toRat⌋₊ + 1) ∧
    (Counter.most ≤ limit.toRat → ∀ fuel,
      evaluate fuel ⟨some limit, none⟩ scope e 0 = evaluate fuel ⟨none, none⟩ scope e 0) ∧
    (∀ fuel run, evaluate fuel ⟨some limit, none⟩ scope e 0 = some run →
      (∀ err, run.result = .error err → err.kind ≠ .stepLimit) →
        evaluate fuel ⟨none, none⟩ scope e 0 = some run ∧
          ∀ limit' : Decimal, limit.toRat ≤ limit'.toRat →
            evaluate fuel ⟨some limit', none⟩ scope e 0 = some run) ∧
    (RuntimeError.stepLimit limit).kind = .stepLimit ∧
      (RuntimeError.stepLimit limit).message = "evaluation exceeded " ++ limit.render ++ " steps" := by
  have hstop : limit.stop = ⟨.error (.stepLimit limit), ⌊limit.toRat⌋₊ + 1⟩ := by
    rw [Decimal.stop, Decimal.toNat_floor]
  rw [← hstop]
  refine ⟨fun hlt => ?_, fun hmost fuel => ?_, fun fuel run hrun => evaluate_mono hrun, rfl, rfl⟩
  · have hlimit : limit.floor < Counter.most := (limit.floor_lt_iff _).2 hlt
    refine ⟨fun fuel hfuel => ?_, fun fuel r n hrun fuel' hfuel => ?_, fun hnever fuel hfuel => ?_, ?_⟩
    · rcases evaluate_cases hlimit hfuel scope e with ⟨run, _, hlimited, _⟩ | ⟨_, hlimited⟩
      · exact ⟨run, hlimited⟩
      · exact ⟨_, hlimited⟩
    · obtain ⟨m, hm, hd⟩ := bigStep_of_evalFrom hrun
      obtain rfl : n = m := by simpa using hm
      constructor
      · intro hn
        have henough : n ≤ fuel' := (Nat.le_floor hn).trans hfuel.le
        have hshown : n ≤ Counter.most := by exact_mod_cast (hn.trans_lt hlt).le
        exact ⟨evaluate_of_turns_le (hd.evaluate_eq henough) ((limit.le_floor_iff n).2 hn),
          Counter.shown_of_le hshown⟩
      · intro hn
        rcases evaluate_cases hlimit hfuel scope e with ⟨run, hrun', _, hmost⟩ | ⟨_, hlimited⟩
        · obtain ⟨m, hm, hd'⟩ := bigStep_of_evalFrom hrun'
          rw [hm, Nat.zero_add, ← (hd.unique hd').2] at hmost
          exact absurd hmost hn.not_ge
        · exact hlimited
    · rcases evaluate_cases hlimit hfuel scope e with ⟨run, hrun, _⟩ | ⟨_, hlimited⟩
      · rw [hnever fuel] at hrun
        cases hrun
      · exact hlimited
    · have hmost : ⌊limit.toRat⌋₊ + 1 ≤ Counter.most := by
        rw [← Decimal.toNat_floor]
        have := Counter.most_eq
        omega
      rw [hstop]
      exact Counter.shown_of_le hmost
  · exact evaluate_of_most_le ((limit.le_floor_iff _).2 hmost) fuel scope e 0

/-! ### A loop and a difference -/

/-- A scope in which the body of `f` calls `f` on its own argument. -/
def loopScope : ValueScope :=
  .extend "n" (.int 0)
    (.extendRec "f" ⟨"n", .int, .apply (.identifier "f") (.identifier "n")⟩ .empty)

def loopCall : Expr := .apply (.identifier "f") (.identifier "n")

theorem evalFrom_loopCall (fuel depth before : Nat) :
    evalFrom ⟨none, none⟩ fuel depth before loopScope loopCall = none := by
  induction fuel using Nat.strongRecOn generalizing before with
  | ind fuel ih =>
      match fuel with
      | 0 | 1 => rfl
      -- The call goes on with the same call in the same scope.
      | fuel + 2 => exact ih (fuel + 1) (Nat.lt_succ_self _) _

/-- The limits are 2.5, which cuts off the loop and the difference, 3.5, which allows the difference, and
`2^53`, which is as good as none. -/
theorem loopCall_evaluate_stepLimit :
    evaluate 3 ⟨some ⟨25, -1⟩, none⟩ loopScope loopCall 0 =
      some ⟨.error (.stepLimit ⟨25, -1⟩), 3⟩ ∧
    evaluate 3 ⟨some ⟨25, -1⟩, none⟩ .empty (.subtract (.number "1") (.number "2")) 0 =
      some ⟨.error (.stepLimit ⟨25, -1⟩), 3⟩ ∧
    evaluate 4 ⟨some ⟨35, -1⟩, none⟩ .empty (.subtract (.number "1") (.number "2")) 0 =
      some ⟨.ok (.int (-1)), 3⟩ ∧
    (∀ limit : Decimal, (⟨35, -1⟩ : Decimal).toRat ≤ limit.toRat →
      evaluate 4 ⟨some limit, none⟩ .empty (.subtract (.number "1") (.number "2")) 0 =
        some ⟨.ok (.int (-1)), 3⟩) ∧
    ∀ fuel, evaluate fuel ⟨some (.ofInt Counter.most), none⟩ loopScope loopCall 0 =
      evaluate fuel ⟨none, none⟩ loopScope loopCall 0 := by
  have hlow : ⌊(⟨25, -1⟩ : Decimal).toRat⌋₊ = 2 := (Decimal.toNat_floor _).symm
  have hhigh : ⌊(⟨35, -1⟩ : Decimal).toRat⌋₊ = 3 := (Decimal.toNat_floor _).symm
  have hlow' : (⟨25, -1⟩ : Decimal).toRat < Counter.most := (Decimal.floor_lt_iff _ _).1 (by decide)
  have hhigh' : (⟨35, -1⟩ : Decimal).toRat < Counter.most := (Decimal.floor_lt_iff _ _).1 (by decide)
  have hfree : evaluate 3 ⟨none, none⟩ .empty (.subtract (.number "1") (.number "2")) 0 =
      some ⟨.ok (.int (-1)), 3⟩ := by rfl
  obtain ⟨-, -, hnever, -⟩ := (evaluate_stepLimit loopScope loopCall ⟨25, -1⟩).1 hlow'
  obtain ⟨-, hcut, -⟩ :=
    (evaluate_stepLimit .empty (.subtract (.number "1") (.number "2")) ⟨25, -1⟩).1 hlow'
  obtain ⟨hbelow, -, hmono, -⟩ :=
    evaluate_stepLimit .empty (.subtract (.number "1") (.number "2")) ⟨35, -1⟩
  obtain ⟨-, hkept, -⟩ := hbelow hhigh'
  obtain ⟨-, hnone, -⟩ := evaluate_stepLimit loopScope loopCall (.ofInt Counter.most)
  have hallowed := (hkept 3 _ 3 hfree 4 (by omega)).1 ((Decimal.le_floor_iff _ 3).1 (by decide))
  refine ⟨?_, ?_, hallowed.1, (hmono 4 _ hallowed.1 fun err herr => nomatch herr).2,
    hnone ((Decimal.le_floor_iff _ _).1 (by decide))⟩
  · rw [hnever (fun fuel => evalFrom_loopCall fuel 1 0) 3 (by omega), hlow]
  · rw [(hcut 3 _ 3 hfree 3 (by omega)).2 ((Decimal.floor_lt_iff _ 3).1 (by decide)), hlow]

/-- Under a limit of `2^53` the loop runs forever. -/
theorem loopCall_evaluate_limited :
    ¬ ∃ fuel run, evaluate fuel ⟨some (.ofInt 9007199254740992), none⟩ loopScope loopCall 0 =
      some run := by
  rintro ⟨fuel, run, h⟩
  rw [evaluate_of_most_le (by decide), evaluate, evalFrom_loopCall] at h
  cases h

end TypedLet
