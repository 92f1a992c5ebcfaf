import Mathlib.Data.Int.ModEq
import TypedLet.Proofs.Evaluation.Refinement
import TypedLet.Proofs.Expr.Parts

/-!
# Arithmetic is exact modulo `2^64`

Every operation wraps its result, and yet an expression of negations and differences comes to what one
wrapping at the end makes of the exact integer: wrapping gives the one integer of the range that is
congruent to the exact one, and negations and differences respect congruence.
-/

namespace TypedLet

namespace Word64

theorem wrap_modEq (n : Int) : wrap n ≡ n [ZMOD 2 ^ 64] := by
  simp only [Int.ModEq, wrap, count, Int.bmod]
  omega

/-- Congruent integers of the range are the same. -/
theorem eq_wrap_of_modEq {k n : Int} (hk : Fits k) (h : k ≡ n [ZMOD 2 ^ 64]) : k = wrap n := by
  simp only [Fits, least, greatest] at hk
  simp only [Int.ModEq, wrap, count, Int.bmod] at h ⊢
  omega

theorem wrap_eq_zero_iff (n : Int) : wrap n = 0 ↔ 2 ^ 64 ∣ n := by
  simp only [wrap, count, Int.bmod]
  omega

end Word64

/-- The expression is made of negations and differences over literals that fit in 64 bits and names of
integers, which lie in the range as all integers of the language do. The number is the integer that it
stands for when nothing is wrapped. -/
inductive Exact (scope : ValueScope) : Expr → Int → Prop where
  | number {text} (hn : Numeral.isNumeral text = true) (hf : Word64.Fits (Numeral.value text)) :
      Exact scope (.number text) (Numeral.value text)
  | identifier {x n} (hx : scope.value? x = some (.int n)) (hf : Word64.Fits n) :
      Exact scope (.identifier x) n
  | negate {e n} (h : Exact scope e n) : Exact scope (.negate e) (-n)
  | subtract {e₁ e₂ m n} (h₁ : Exact scope e₁ m) (h₂ : Exact scope e₂ n) :
      Exact scope (.subtract e₁ e₂) (m - n)

variable {scope : ValueScope} {e : Expr} {n : Int}

/-- Each part takes one step. -/
theorem Exact.bigStep (h : Exact scope e n) :
    BigStep scope e (.ok (.int (Word64.wrap n))) e.parts.length := by
  induction h with
  | number hn hf =>
      rw [Word64.wrap_of_fits hf]
      exact .number hn hf
  | identifier hx hf =>
      rw [Word64.wrap_of_fits hf]
      exact .identifier hx
  | negate _ ih =>
      rw [← Word64.wrap_neg_wrap]
      exact .negate ih
  | subtract _ _ ih₁ ih₂ =>
      rw [← Word64.wrap_sub_wrap, Expr.parts, List.length_cons, List.length_append]
      exact .subtract ih₁ ih₂

theorem Exact.bigStep_isZero (h : Exact scope e n) :
    BigStep scope (.isZero e) (.ok (.bool (Word64.wrap n == 0))) (e.parts.length + 1) :=
  .isZero h.bigStep

/-- A derivation tells how a run ends, under whatever limits, unless a limit ends it before. -/
theorem BigStep.result_of_evaluate {r : Except RuntimeError Value} {k : Nat} (h : BigStep scope e r k)
    {limits : Limits} {fuel before : Nat} {run : Run}
    (hrun : evaluate fuel limits scope e before = some run) :
    run.result = r ∨ ∃ err, run.result = .error err ∧ limits.Stops err := by
  rcases evalFrom_follows hrun with ⟨m, -, hd⟩ | hstop
  · exact .inl (hd.unique h).1
  · exact .inr hstop

/-- An expression of negations and differences evaluates, by one step for each part, to the one integer of
the range that is congruent modulo `2^64` to the exact one, however often it wraps on the way. Its test for
zero tells whether `2^64` divides the exact one. Only a limit can keep an evaluation from its value. -/
theorem evaluate_exact (h : Exact scope e n) :
    ∃ m, Word64.Fits m ∧ m ≡ n [ZMOD 2 ^ 64] ∧ (∀ k, Word64.Fits k → k ≡ n [ZMOD 2 ^ 64] → k = m) ∧
      (∀ fuel, e.parts.length ≤ fuel →
        evaluate fuel ⟨none, none⟩ scope e 0 = some ⟨.ok (.int m), e.parts.length⟩) ∧
      (∀ limits fuel before run, evaluate fuel limits scope e before = some run →
        run.result = .ok (.int m) ∨ ∃ err, run.result = .error err ∧ limits.Stops err) ∧
      ∃ b, (b = true ↔ 2 ^ 64 ∣ n) ∧
        ∀ fuel, e.parts.length < fuel →
          evaluate fuel ⟨none, none⟩ scope (.isZero e) 0 = some ⟨.ok (.bool b), e.parts.length + 1⟩ := by
  refine ⟨Word64.wrap n, Word64.fits_wrap n, Word64.wrap_modEq n, fun k => Word64.eq_wrap_of_modEq,
    fun fuel hfuel => ?_, fun limits fuel before run => h.bigStep.result_of_evaluate,
    Word64.wrap n == 0, ?_, fun fuel hfuel => ?_⟩
  · rw [evaluate, h.bigStep.evalFrom_eq hfuel, Nat.zero_add]
  · rw [beq_iff_eq, Word64.wrap_eq_zero_iff]
  · rw [evaluate, h.bigStep_isZero.evalFrom_eq hfuel, Nat.zero_add]

/-! ### Past both ends of the range -/

def leastNamed : ValueScope := .extend "x" (.int Word64.least) .empty

/-- The least integer negated is past the one end, and with the least integer taken off it is `2^64`. -/
def wholeTurn : Expr := .subtract (.negate (.identifier "x")) (.number "-9223372036854775808")

theorem wholeTurn_evaluate_exact :
    Exact leastNamed wholeTurn (2 ^ 64) ∧
      evaluate 4 ⟨none, none⟩ leastNamed wholeTurn 0 = some ⟨.ok (.int 0), 4⟩ ∧
      evaluate 5 ⟨none, none⟩ leastNamed (.isZero wholeTurn) 0 = some ⟨.ok (.bool true), 5⟩ := by
  have hx : Exact leastNamed (.identifier "x") Word64.least := .identifier rfl (by decide)
  have hliteral : Exact leastNamed (.number "-9223372036854775808") Word64.least :=
    .number (by decide) (by decide)
  have hexact : Exact leastNamed wholeTurn (2 ^ 64) := hx.negate.subtract hliteral
  obtain ⟨m, -, -, hunique, hvalue, -, b, hb, htest⟩ := evaluate_exact hexact
  obtain rfl := hunique 0 (by decide) (by decide)
  obtain rfl := hb.2 (dvd_refl _)
  exact ⟨hexact, hvalue 4 (by decide), htest 5 (by decide)⟩

end TypedLet
