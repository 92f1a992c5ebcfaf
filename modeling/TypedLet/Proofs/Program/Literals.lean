import TypedLet.Program
import TypedLet.Proofs.Expr.RoundTrip
import TypedLet.Proofs.Numeral.Digits

/-!
# Literals denote their value

A literal keeps its text from the lexer to the evaluator, and only there does it become a number: the
one that its digits stand for, if that lies in the range of 64 bits. Written out, the number is a literal
again, for the same number.
-/

namespace TypedLet

open Numeral (Denotes)

variable {text ds : String} {n : Int} {limits : Limits}

theorem Numeral.Denotes.ofLiteral_of_fits (h : Denotes text n) (hf : Word64.Fits n) :
    Value.ofLiteral text = .ok (.int n) := by
  rw [Value.ofLiteral_of_fits h.isNumeral (by rwa [h.value_eq]), h.value_eq]

theorem Numeral.Denotes.ofLiteral_of_not_fits (h : Denotes text n) (hf : ¬ Word64.Fits n) :
    Value.ofLiteral text = .error (.overflow text) :=
  Value.ofLiteral_of_not_fits h.isNumeral (by rwa [h.value_eq])

/-- A number without a sign fits up to `2^63 - 1`. -/
theorem Word64.fits_natCast_iff {k : Nat} : Fits (k : Int) ↔ k < 2 ^ 63 := by
  simp only [Fits, least, greatest]
  omega

/-! ## Evaluating and running a literal -/

theorem evaluate_number (hlimits : limits.enter 1 0 = .ok 1) (fuel : Nat) (scope : ValueScope)
    (text : String) :
    evaluate (fuel + 1) limits scope (.number text) 0 = some ⟨Value.ofLiteral text, 1⟩ := by
  rw [evaluate, evalFrom_of_enter_ok hlimits]
  rfl

/-- Digits are a program, and its expression is the literal with this text. -/
theorem Expr.ofSource_digits (h : Text.isDigits ds = true) : ofSource ds = .ok (.number ds) :=
  ofSource_render_of_isPrintable (e := .number ds) h

theorem runSource_digits (h : Text.isDigits ds = true) (hlimits : limits.enter 1 0 = .ok 1)
    (fuel : Nat) :
    runSource (fuel + 1) limits [] ds = some
      (match Value.ofLiteral ds with
      | .ok value => .ok ⟨value, .int⟩
      | .error error => .error (.runtime error)) := by
  have htype : (Expr.number ds).typeIn (Given.tyScope []) = .ok .int := rfl
  cases hliteral : Value.ofLiteral ds <;>
    simp only [runSource, Expr.ofSource_digits h, Expr.run, htype, evaluate_number hlimits, hliteral,
      Option.map_some]

/-- Literals denote exactly their value. A program of digits is of type `int` and comes to what the digits
stand for, if that is less than `2^63`, and it is written without zeros in front; otherwise the program
fails with an overflow that quotes the digits. A numeral evaluates to the integer that it stands for, or
overflows if that is out of range, and an integer of the range is written as a numeral that evaluates to
it. All this holds under any limits that let one expression be looked at. -/
theorem literals_exact (hlimits : limits.enter 1 0 = .ok 1) :
    (∀ ds, Text.isDigits ds = true → ∀ fuel,
      (Text.decimal ds < 2 ^ 63 →
        runSource (fuel + 1) limits [] ds = some (.ok ⟨.int (Text.decimal ds), .int⟩) ∧
        Text.IsDecimalOf (Value.int (Text.decimal ds)).render (Text.decimal ds)) ∧
      (2 ^ 63 ≤ Text.decimal ds →
        runSource (fuel + 1) limits [] ds = some (.error (.runtime (.overflow ds))) ∧
        (Failure.runtime (.overflow ds)).message =
          "integer literal " ++ ds ++ " does not fit in 64 bits")) ∧
    (∀ text, Numeral.isNumeral text = true ↔ ∃ n, Denotes text n) ∧
    (∀ text n, Denotes text n → ∀ fuel scope,
      (Word64.Fits n →
        evaluate (fuel + 1) limits scope (.number text) 0 = some ⟨.ok (.int n), 1⟩) ∧
      (¬ Word64.Fits n →
        evaluate (fuel + 1) limits scope (.number text) 0 = some ⟨.error (.overflow text), 1⟩)) ∧
    ∀ n, Word64.Fits n → ∀ fuel scope,
      evaluate (fuel + 1) limits scope (.number (Value.ofInt n).render) 0 = some ⟨.ok (.int n), 1⟩ := by
  refine ⟨fun ds hds fuel => ⟨fun hlt => ⟨?_, ?_⟩, fun hle => ⟨?_, rfl⟩⟩,
    fun text => Numeral.isNumeral_iff_denotes, fun text n h fuel scope => ⟨fun hf => ?_, fun hf => ?_⟩,
    fun n hf fuel scope => ?_⟩
  · rw [runSource_digits hds hlimits,
      (Denotes.plain hds).ofLiteral_of_fits (Word64.fits_natCast_iff.2 hlt)]
  · exact Text.isDecimalOf_toString _
  · have hover : ¬ Word64.Fits (Text.decimal ds) := fun hf =>
      Nat.not_lt_of_le hle (Word64.fits_natCast_iff.1 hf)
    rw [runSource_digits hds hlimits, (Denotes.plain hds).ofLiteral_of_not_fits hover]
  · rw [evaluate_number hlimits, h.ofLiteral_of_fits hf]
  · rw [evaluate_number hlimits, h.ofLiteral_of_not_fits hf]
  · have hrender : (Value.ofInt n).render = toString n := by
      rw [Value.ofInt, Word64.wrap_of_fits hf]
      rfl
    rw [hrender, evaluate_number hlimits, (Numeral.denotes_toString n).ofLiteral_of_fits hf]

/-- Zeros in front, both ends of the range, and one past an end. -/
theorem rangeEnds_literals_exact :
    runSource 1 ⟨none, none⟩ [] "0009223372036854775807" =
      some (.ok ⟨.int Word64.greatest, .int⟩) ∧
    runSource 1 ⟨none, none⟩ [] "09223372036854775808" =
      some (.error (.runtime (.overflow "09223372036854775808"))) ∧
    evaluate 1 ⟨none, none⟩ .empty (.number "-9223372036854775808") 0 =
      some ⟨.ok (.int Word64.least), 1⟩ ∧
    evaluate 1 ⟨none, none⟩ .empty (.number "-00") 0 = some ⟨.ok (.int 0), 1⟩ ∧
    evaluate 1 ⟨none, none⟩ .empty (.number (Value.ofInt (-7)).render) 0 =
      some ⟨.ok (.int (-7)), 1⟩ := by
  have hlimits : (⟨none, none⟩ : Limits).enter 1 0 = .ok 1 := rfl
  obtain ⟨hprogram, -, hnode, hwritten⟩ := literals_exact hlimits
  have hgreatest : Text.decimal "0009223372036854775807" = 9223372036854775807 := by decide +kernel
  have hpast : Text.decimal "09223372036854775808" = 9223372036854775808 := by decide +kernel
  have hleast : Text.isDigits "9223372036854775808" = true := by decide +kernel
  have hzero : Text.isDigits "00" = true := by decide +kernel
  refine ⟨?_, ?_, ?_, ?_, ?_⟩
  · obtain ⟨hrun, -⟩ := (hprogram "0009223372036854775807" (by decide +kernel) 0).1
      (by rw [hgreatest]; decide)
    rw [hgreatest] at hrun
    exact hrun
  · exact ((hprogram "09223372036854775808" (by decide +kernel) 0).2 hpast.ge).1
  · exact (hnode _ _ (.negated hleast) 0 .empty).1 (by decide +kernel)
  · exact (hnode _ _ (.negated hzero) 0 .empty).1 (by decide +kernel)
  · exact hwritten (-7) (by decide) 0 .empty

end TypedLet
