import TypedLet.Proofs.Evaluation.Reachable
import TypedLet.Proofs.Evaluation.Visits
import TypedLet.Proofs.Expr.Fronts
import TypedLet.Proofs.Expr.RoundTrip

/-!
# Failures point back to the source

An evaluation in the empty scope is only ever at parts of the expression it started with, since there is
no other body that a closure could have. So whatever a part of the expression can raise stems from a token
of the program, and the message of a failed assertion or of a literal that is too large shows which.
-/

namespace TypedLet

/-! ## What the parts can raise -/

theorem RuntimeError.kind_eq_assertionFailed {err : RuntimeError} :
    err.kind = .assertionFailed ↔ ∃ line, err = .assertionFailed line := by
  cases err <;> simp [kind]

theorem RuntimeError.kind_eq_overflow {err : RuntimeError} :
    err.kind = .overflow ↔ ∃ text, err = .overflow text := by
  cases err <;> simp [kind]

theorem Expr.Raises.assertLine? {e : Expr} {line : Option Int} (h : e.Raises (.assertionFailed line)) :
    e.assertLine? = some line := by
  cases h
  rfl

theorem Expr.Raises.literal? {e : Expr} {text : String} (h : e.Raises (.overflow text)) :
    e.literal? = some text ∧ ¬ Word64.Fits (Numeral.value text) := by
  cases h with
  | overflow hf => exact ⟨rfl, hf⟩

/-- In the empty scope, an error that no limit calls for is raised by a part of the expression. -/
theorem evaluate_raises {limits : Limits} {fuel before n : Nat} {e : Expr} {err : RuntimeError}
    (h : evaluate fuel limits .empty e before = some ⟨.error err, n⟩) :
    limits.Stops err ∨ ∃ d ∈ e.parts, d.Raises err := by
  refine (Configuration.exists_raises (c := ⟨1, before, .empty, e⟩) h).imp_right ?_
  rintro ⟨c, hvisits, hraises⟩
  have hparts := invariant_bodies e.hereditary_mem_parts
  exact ⟨c.expr, (hparts.visits hvisits ⟨e.self_mem_parts, ValueScope.bodies_empty⟩).1, hraises⟩

/-! ## What the tokens show -/

section Source

variable {source : String} {s : TokenStream} {e : Expr} {limits : Limits} {fuel before n : Nat}

theorem assertLines_eq (hphrase : ExprPhrase s.pending e) :
    e.parts.filterMap Expr.assertLine? =
      (s.tokens.filter (·.kind = .kwAssert)).map fun t => some t.position.line := by
  rw [hphrase.assertLines, TokenStream.tokens, List.filter_append]
  simp [s.finish_kind]

/-- A failed assertion has the line of a keyword of the text. -/
theorem exists_kwAssert_of_assertionFailed (hphrase : ExprPhrase s.pending e) {line : Option Int}
    (h : evaluate fuel limits .empty e before = some ⟨.error (.assertionFailed line), n⟩) :
    ∃ t ∈ s.tokens, t.kind = .kwAssert ∧ line = some t.position.line := by
  obtain hstops | ⟨d, hd, hraises⟩ := evaluate_raises h
  · cases hstops
  · have hmem : line ∈ e.parts.filterMap Expr.assertLine? :=
      List.mem_filterMap.2 ⟨d, hd, hraises.assertLine?⟩
    rw [assertLines_eq hphrase, List.mem_map] at hmem
    obtain ⟨t, ht, rfl⟩ := hmem
    rw [List.mem_filter, decide_eq_true_eq] at ht
    exact ⟨t, ht.1, ht.2, rfl⟩

/-- A literal that does not fit is a number of the text, and it is too large since it has no sign. -/
theorem exists_number_of_overflow (htokens : tokenize source = .ok s)
    (hphrase : ExprPhrase s.pending e) {text : String}
    (h : evaluate fuel limits .empty e before = some ⟨.error (.overflow text), n⟩) :
    ∃ t ∈ s.tokens, t.kind = .number ∧ t.text = text ∧ Word64.greatest < Numeral.value text := by
  obtain hstops | ⟨d, hd, hraises⟩ := evaluate_raises h
  · cases hstops
  · obtain ⟨htext, hfits⟩ := hraises.literal?
    have hmem : text ∈ e.parts.filterMap Expr.literal? := List.mem_filterMap.2 ⟨d, hd, htext⟩
    rw [hphrase.literals, List.mem_map] at hmem
    obtain ⟨t, ht, rfl⟩ := hmem
    rw [List.mem_filter, decide_eq_true_eq] at ht
    have hnonneg := Text.value_nonneg_of_isDigits (number_of_tokenize htokens t ht.1 ht.2)
    refine ⟨t, List.mem_append_left _ ht.1, ht.2, rfl, ?_⟩
    simp only [Word64.Fits, Word64.least] at hfits
    omega

end Source

/-- Failures of a program point back to its text. The `assert`s of its tree hold the lines of their
keywords, in order. Evaluated in the empty scope under any limits, a failed assertion names the line of
such a keyword, and a literal that does not fit is quoted as a number of the text that is too large. So a
program whose numbers are all small enough never overflows. -/
theorem Expr.failures_of_ofSource {source : String} {e : Expr} (h : ofSource source = .ok e) :
    ∃ s, tokenize source = .ok s ∧
      e.parts.filterMap assertLine? =
        (s.tokens.filter (·.kind = .kwAssert)).map (fun t => some t.position.line) ∧
      ∀ fuel limits before err n,
        evaluate fuel limits .empty e before = some ⟨.error err, n⟩ →
          (err.kind = .assertionFailed → ∃ t ∈ s.tokens, t.kind = .kwAssert ∧
            err.message = "assertion failed at line " ++ toString t.position.line) ∧
          (err.kind = .overflow → ∃ t ∈ s.tokens, t.kind = .number ∧
            Word64.greatest < Numeral.value t.text ∧
            err.message = "integer literal " ++ t.text ++ " does not fit in 64 bits") ∧
          ((∀ t ∈ s.tokens, t.kind = .number → Numeral.value t.text ≤ Word64.greatest) →
            err.kind ≠ .overflow) := by
  obtain ⟨s, htokens, hphrase⟩ := ofSource_eq_ok.1 h
  refine ⟨s, htokens, assertLines_eq hphrase, fun fuel limits before err n hrun =>
    ⟨fun hkind => ?_, fun hkind => ?_, fun hsmall hkind => ?_⟩⟩
  · obtain ⟨line, rfl⟩ := RuntimeError.kind_eq_assertionFailed.1 hkind
    obtain ⟨t, ht, hassert, rfl⟩ := exists_kwAssert_of_assertionFailed hphrase hrun
    exact ⟨t, ht, hassert, rfl⟩
  · obtain ⟨text, rfl⟩ := RuntimeError.kind_eq_overflow.1 hkind
    obtain ⟨t, ht, hnumber, rfl, hlarge⟩ := exists_number_of_overflow htokens hphrase hrun
    exact ⟨t, ht, hnumber, hlarge, rfl⟩
  · obtain ⟨text, rfl⟩ := RuntimeError.kind_eq_overflow.1 hkind
    obtain ⟨t, ht, hnumber, rfl, hlarge⟩ := exists_number_of_overflow htokens hphrase hrun
    have := hsmall t ht hnumber
    omega

/-! ### A check in a procedure -/

/-- The check on the second line fails for arguments other than zero, and zero leads to a literal that
does not fit. -/
def checkedCall (arg : String) : String :=
  "let f = proc (x: int)\n  assert zero?(x)\n  then 9223372036854775808\nin (f " ++ arg ++ ")"

def checkedCallTree (arg : String) : Expr :=
  .letIn "f"
    (.proc "x" .int
      (.assert (.isZero (.identifier "x")) (.number "9223372036854775808") (some 2)))
    (.apply (.identifier "f") (.number arg))

theorem checkedCall_failures :
    (checkedCallTree "1").parts.filterMap Expr.assertLine? = [some 2] ∧
    evaluate 6 ⟨none, none⟩ .empty (checkedCallTree "1") 0 =
      some ⟨.error (.assertionFailed (some 2)), 8⟩ ∧
    (∃ s t, tokenize (checkedCall "1") = .ok s ∧ t ∈ s.tokens ∧ t.kind = .kwAssert ∧
      "assertion failed at line 2" = "assertion failed at line " ++ toString t.position.line) ∧
    evaluate 6 ⟨none, none⟩ .empty (checkedCallTree "0") 0 =
      some ⟨.error (.overflow "9223372036854775808"), 9⟩ ∧
    ∃ s t, tokenize (checkedCall "0") = .ok s ∧ t ∈ s.tokens ∧ t.kind = .number ∧
      Word64.greatest < Numeral.value t.text := by
  have hfailed : evaluate 6 ⟨none, none⟩ .empty (checkedCallTree "1") 0 =
      some ⟨.error (.assertionFailed (some 2)), 8⟩ := rfl
  have hoverflow : evaluate 6 ⟨none, none⟩ .empty (checkedCallTree "0") 0 =
      some ⟨.error (.overflow "9223372036854775808"), 9⟩ := rfl
  have hone : Expr.ofSource (checkedCall "1") = .ok (checkedCallTree "1") := by decide +kernel
  have hzero : Expr.ofSource (checkedCall "0") = .ok (checkedCallTree "0") := by decide +kernel
  obtain ⟨s, hs, hlines, hfailures⟩ := Expr.failures_of_ofSource hone
  obtain ⟨s', hs', -, hfailures'⟩ := Expr.failures_of_ofSource hzero
  obtain ⟨t, ht, hassert, hmessage⟩ := (hfailures _ _ _ _ _ hfailed).1 rfl
  obtain ⟨t', ht', hnumber, hlarge, -⟩ := (hfailures' _ _ _ _ _ hoverflow).2.1 rfl
  exact ⟨rfl, hfailed, ⟨s, t, hs, ht, hassert, hmessage⟩, hoverflow, s', t', hs', ht', hnumber, hlarge⟩

end TypedLet
