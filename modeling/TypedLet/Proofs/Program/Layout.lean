import TypedLet.Program
import TypedLet.Proofs.Evaluation.Erasure
import TypedLet.Proofs.Evaluation.FreeNames
import TypedLet.Proofs.Expr.Positions

/-!
# Layout is irrelevant

Two sources that have the same lexemes differ in blanks, line breaks and comments alone. They are parsed
alike, to expressions that differ in the lines of `assert`s. Such expressions have the same type and run
in lockstep, so the two programs come to the same in the end, and what differs is the positions that
their errors name.
-/

namespace TypedLet

/-! ## Expressions that differ in lines run in lockstep -/

/-- The error with the line of a failed assertion replaced by the first one. -/
def RuntimeError.unplaced : RuntimeError → RuntimeError
  | assertionFailed line => assertionFailed (line.map fun _ => Position.start.line)
  | err => err

/-- The values are equal but for the lines in closures. -/
abbrev Value.SameButLines : Value → Value → Prop :=
  SameUpTo id (Option.map fun _ => Position.start.line)

theorem Value.SameButLines.render_eq {v v' : Value} (h : v.SameButLines v') : v.render = v'.render := by
  cases h.rule Procedure.sameUpTo_monotone with
  | int | bool => rfl
  | closure hcode =>
      obtain ⟨hcode, -⟩ := hcode
      simp only [Procedure.mapAnnotations, Procedure.mk.injEq, id] at hcode
      rw [render, render, hcode.1, hcode.2.1]

theorem lockstep_sameButLines : Lockstep Value.SameButLines (fun err => err.unplaced.shown)
    (Expr.SameUpTo id (Option.map fun _ => Position.start.line)) := by
  refine lockstep_sameUpTo (fun line line' h => ?_) (fun place h => ?_) (fun place h => ?_) fun h => ?_
  · exact congrArg (fun line => (RuntimeError.assertionFailed line).shown) h
  · change (RuntimeError.notInteger place _).shown = (RuntimeError.notInteger place _).shown
    rw [RuntimeError.shown_notInteger, RuntimeError.shown_notInteger, Value.SameButLines.render_eq h]
  · change (RuntimeError.notBoolean place _).shown = (RuntimeError.notBoolean place _).shown
    rw [RuntimeError.shown_notBoolean, RuntimeError.shown_notBoolean, Value.SameButLines.render_eq h]
  · change (RuntimeError.notProcedure _).shown = (RuntimeError.notProcedure _).shown
    rw [RuntimeError.shown_notProcedure, RuntimeError.shown_notProcedure,
      Value.SameButLines.render_eq h]

/-- What is seen of the runs of one program in two layouts: the printed value, or the kind and the message
of the error but for its line. -/
abbrev Run.SameButLine : Run → Run → Prop :=
  AlikeBy (fun v v' => v.render = v'.render) fun err => err.unplaced.shown

theorem evaluate_unplaced {e e' : Expr} (h : e.unplaced = e'.unplaced) (limits : Limits)
    (fuel : Nat) (scope : ValueScope) (before : Nat) :
    Option.Rel Run.SameButLine (evaluate fuel limits scope e before)
      (evaluate fuel limits scope e' before) := by
  have hscope : ValueScope.AlikeAlong Value.SameButLines Eq scope scope := .refl .refl scope
  exact (lockstep_sameButLines.evalFrom limits fuel 1 before ⟨h, hscope⟩).mono fun _ _ hrun =>
    hrun.mono fun _ _ => Value.SameButLines.render_eq

/-! ## Programs -/

/-- What one program in two layouts comes to: values that are printed in the same way, of one type, or
errors that say the same, but for the places that they name. -/
inductive Outcome.SameButPlaces : Except Failure Outcome → Except Failure Outcome → Prop where
  | value {v v' t} (h : v.render = v'.render) : SameButPlaces (.ok ⟨v, t⟩) (.ok ⟨v', t⟩)
  | parse {d d'} (h : d.SameButPlace d') :
      SameButPlaces (.error (.source (.parse d))) (.error (.source (.parse d')))
  | typing {err} : SameButPlaces (.error (.typing err)) (.error (.typing err))
  | runtime {err err'} (h : err.unplaced.shown = err'.unplaced.shown) :
      SameButPlaces (.error (.runtime err)) (.error (.runtime err'))

theorem Expr.run_unplaced {e e' : Expr} (h : e.unplaced = e'.unplaced) (fuel : Nat) (limits : Limits)
    (given : List Given) :
    Option.Rel Outcome.SameButPlaces (e.run fuel limits given) (e'.run fuel limits given) := by
  rw [run, run, typeIn_eq_of_mapAnnotations_id h]
  cases e'.typeIn (Given.tyScope given) with
  | error err => exact .some .typing
  | ok t =>
      have hruns := evaluate_unplaced h limits fuel (Given.valueScope given) 0
      dsimp only
      generalize evaluate fuel limits (Given.valueScope given) e 0 = run at hruns ⊢
      generalize evaluate fuel limits (Given.valueScope given) e' 0 = run' at hruns ⊢
      cases hruns with
      | none => exact .none
      | some hrun =>
          cases hrun with
          | value hv => exact .some (.value hv)
          | error herr => exact .some (.runtime herr)

theorem Expr.ofSource_of_tokenize {source : String} {s : TokenStream} (h : tokenize source = .ok s) :
    ofSource source = (Parser.program s).1.mapError .parse := by
  rw [ofSource, h]
  dsimp only
  cases (Parser.program s).1 <;> rfl

/-- Layout is irrelevant. Sources of the same lexemes are both refused by the parser, at the same index
and in the same words but for the position, or they are read as expressions that differ in the lines of
`assert`s. These have the same type or type error under all types of names, and under all limits take the
same number of steps and end in the same way, but for the line of a failed assertion. So the two programs
come to the same. -/
theorem layout_irrelevant {source source' : String} {s s' : TokenStream}
    (h : tokenize source = .ok s) (h' : tokenize source' = .ok s')
    (hlexemes : s.tokens.map Token.lexeme = s'.tokens.map Token.lexeme) :
    ((∃ d d' k, Expr.ofSource source = .error (.parse d) ∧ Expr.ofSource source' = .error (.parse d') ∧
        Parser.StopsAt s k d ∧ Parser.StopsAt s' k d' ∧ d.SameButPlace d') ∨
      ∃ e e', Expr.ofSource source = .ok e ∧ Expr.ofSource source' = .ok e' ∧
        e.withLines none = e'.withLines none ∧ (∀ G, e.typeIn G = e'.typeIn G) ∧
        ∀ limits fuel scope before, Option.Rel Run.SameButLine (evaluate fuel limits scope e before)
          (evaluate fuel limits scope e' before)) ∧
    ∀ fuel limits given, Option.Rel Outcome.SameButPlaces (runSource fuel limits given source)
      (runSource fuel limits given source') := by
  have hnumeral : ∀ {source s}, tokenize source = .ok s →
      ∀ t ∈ s.pending, t.kind = .number → Numeral.isNumeral t.text = true :=
    fun h t ht hkind => Text.isNumeral_of_isDigits (number_of_tokenize h t ht hkind)
  rcases Parser.program_cases (TokenStream.unplaced_eq_of_lexemes hlexemes) (hnumeral h) (hnumeral h')
    with ⟨d, d', k, hd, hd', herrors⟩ | ⟨e, e', he, he', htrees⟩
  · obtain ⟨t, -, hfound⟩ := hd.found
    have hplace := ParseError.sameButPlace_of_unplaced herrors hfound
    have hsource : Expr.ofSource source = .error (.parse d) := by
      rw [Expr.ofSource_of_tokenize h, hd.error, Except.mapError]
    have hsource' : Expr.ofSource source' = .error (.parse d') := by
      rw [Expr.ofSource_of_tokenize h', hd'.error, Except.mapError]
    refine ⟨.inl ⟨d, d', k, hsource, hsource', hd, hd', hplace⟩, fun fuel limits given => ?_⟩
    rw [runSource, runSource, hsource, hsource']
    exact .some (.parse hplace)
  · have hsource : Expr.ofSource source = .ok e := by
      rw [Expr.ofSource_of_tokenize h, he, Except.mapError]
    have hsource' : Expr.ofSource source' = .ok e' := by
      rw [Expr.ofSource_of_tokenize h', he', Except.mapError]
    have hlines : e.withLines none = e'.withLines none := by
      rw [← Expr.withLines_unplaced none e, htrees, Expr.withLines_unplaced]
    refine ⟨.inr ⟨e, e', hsource, hsource', hlines, Expr.typeIn_eq_of_mapAnnotations_id htrees,
      evaluate_unplaced htrees⟩, fun fuel limits given => ?_⟩
    rw [runSource, runSource, hsource, hsource']
    exact Expr.run_unplaced htrees fuel limits given

/-! ### One assertion in two layouts -/

def failedAssert : String := "assert false then 0"

/-- The same behind a comment and over two lines. -/
def spreadFailedAssert : String := "# never true\nassert\tfalse\n  then 0"

theorem failedAssert_layout_irrelevant :
    ∃ s s', tokenize failedAssert = .ok s ∧ tokenize spreadFailedAssert = .ok s' ∧
      s.tokens.map Token.lexeme = s'.tokens.map Token.lexeme ∧
      runSource 3 ⟨none, none⟩ [] failedAssert =
        some (.error (.runtime (.assertionFailed (some 1)))) ∧
      runSource 3 ⟨none, none⟩ [] spreadFailedAssert =
        some (.error (.runtime (.assertionFailed (some 2)))) ∧
      Option.Rel Outcome.SameButPlaces (runSource 3 ⟨none, none⟩ [] failedAssert)
        (runSource 3 ⟨none, none⟩ [] spreadFailedAssert) := by
  have h : tokenize failedAssert = .ok ⟨[⟨.kwAssert, "assert", ⟨1, 1⟩⟩, ⟨.kwFalse, "false", ⟨1, 8⟩⟩,
      ⟨.kwThen, "then", ⟨1, 14⟩⟩, ⟨.number, "0", ⟨1, 19⟩⟩], .endAt ⟨1, 20⟩, rfl⟩ := by
    decide +kernel
  have h' : tokenize spreadFailedAssert = .ok ⟨[⟨.kwAssert, "assert", ⟨2, 1⟩⟩,
      ⟨.kwFalse, "false", ⟨2, 8⟩⟩, ⟨.kwThen, "then", ⟨3, 3⟩⟩, ⟨.number, "0", ⟨3, 8⟩⟩],
      .endAt ⟨3, 9⟩, rfl⟩ := by decide +kernel
  have hparse : Expr.ofSource failedAssert =
      .ok (.assert (.bool false) (.number "0") (some 1)) := by decide +kernel
  have hparse' : Expr.ofSource spreadFailedAssert =
      .ok (.assert (.bool false) (.number "0") (some 2)) := by decide +kernel
  refine ⟨_, _, h, h', rfl, ?_, ?_, (layout_irrelevant h h' rfl).2 3 _ []⟩
  · rw [runSource, hparse]
    rfl
  · rw [runSource, hparse']
    rfl

end TypedLet
