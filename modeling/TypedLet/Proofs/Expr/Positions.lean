import TypedLet.Proofs.Expr.Annotations
import TypedLet.Proofs.Expr.RoundTrip

/-!
# Positions in the parser

No parser looks at the position of a token but to write it down. From tokens without positions it reads
what it reads from the tokens, and the results differ in the positions that are written down: the lines
of `assert`s, and where an error says that it is. So streams of the same lexemes are parsed alike.
-/

namespace TypedLet

/-! ## Without positions -/

/-- The token at the start of a text. -/
def Token.unplaced (t : Token) : Token := { t with position := .start }

def TokenStream.unplaced (s : TokenStream) : TokenStream :=
  ⟨s.pending.map Token.unplaced, s.finish.unplaced, s.finish_kind⟩

def ParseError.unplaced : ParseError → ParseError
  | noExpression t => noExpression t.unplaced
  | noType t => noType t.unplaced
  | expected place t => expected place t.unplaced
  | trailing t => trailing t.unplaced
  | refused number => refused number

/-- The expression with each `assert` that is on a line on the first one. -/
def Expr.unplaced : Expr → Expr := mapAnnotations id (Option.map fun _ => Position.start.line)

@[simp] theorem Token.kind_unplaced (t : Token) : t.unplaced.kind = t.kind := rfl

namespace TokenStream

@[simp] theorem head_unplaced (s : TokenStream) : s.unplaced.head = s.head.unplaced := by
  obtain ⟨_ | ⟨t, ts⟩, finish, hfinish⟩ := s <;> rfl

@[simp] theorem tail_unplaced (s : TokenStream) : s.unplaced.tail = s.tail.unplaced := by
  obtain ⟨_ | ⟨t, ts⟩, finish, hfinish⟩ := s <;> rfl

theorem unplaced_eq_of_lexemes {s s' : TokenStream}
    (h : s.tokens.map Token.lexeme = s'.tokens.map Token.lexeme) : s.unplaced = s'.unplaced := by
  obtain ⟨pending, finish, hfinish⟩ := s
  obtain ⟨pending', finish', hfinish'⟩ := s'
  simp only [tokens, List.map_append, List.map_cons, List.map_nil] at h
  obtain ⟨hpending, hlast⟩ := List.append_inj' h rfl
  have hunplaced : Token.unplaced = (fun l => ⟨l.1, l.2, .start⟩) ∘ Token.lexeme := rfl
  simp only [unplaced, hunplaced, ← List.map_map, hpending, Function.comp_apply,
    (List.cons.inj hlast).1]

theorem tokens_getElem?_zero (s : TokenStream) : s.tokens[0]? = some s.head := by
  obtain ⟨_ | ⟨t, ts⟩, finish, hfinish⟩ := s <;> rfl

theorem length_pending_unplaced (s : TokenStream) :
    s.unplaced.pending.length = s.pending.length :=
  List.length_map _

end TokenStream

/-! ## Parsers on a stream without positions -/

namespace Parser

variable {α β : Type}

/-- What a parser gives and leaves, without positions. -/
def unplaced (h : α → α) : Except ParseError α × TokenStream → Except ParseError α × TokenStream
  | (.ok a, rest) => (.ok (h a), rest.unplaced)
  | (.error d, rest) => (.error d.unplaced, rest.unplaced)

/-- On a stream without positions `q` gives and leaves what `p` does on the stream, without positions. -/
def Mirrors (h : α → α) (q p : Parser α) : Prop :=
  ∀ s : TokenStream, q s.unplaced = unplaced h (p s)

theorem mirrors_pure {h : α → α} {a b : α} (hab : b = h a) :
    Mirrors h (Pure.pure b) (Pure.pure a) := by
  subst hab
  exact fun _ => rfl

theorem mirrors_fail {h : α → α} {d d' : ParseError} (hd : d' = d.unplaced) :
    Mirrors h (fail d') (fail d) := by
  subst hd
  exact fun _ => rfl

theorem mirrors_peek : Mirrors Token.unplaced peek peek := by
  intro s
  rw [peek_apply, peek_apply, TokenStream.head_unplaced]
  rfl

theorem mirrors_skip : Mirrors id skip skip := by
  intro s
  rw [skip_apply, skip_apply, TokenStream.tail_unplaced]
  rfl

theorem mirrors_expect (place : Expectation) :
    Mirrors Token.unplaced (expect place) (expect place) := by
  intro s
  rw [expect_apply, expect_apply, TokenStream.head_unplaced, TokenStream.tail_unplaced,
    Token.kind_unplaced]
  by_cases hkind : s.head.kind = place.kind
  · rw [if_pos hkind, if_pos hkind]
    rfl
  · rw [if_neg hkind, if_neg hkind]
    rfl

theorem Mirrors.bind {h : α → α} {k : β → β} {p q : Parser α} {f g : α → Parser β}
    (hp : Mirrors h q p) (hf : ∀ a, Mirrors k (g (h a)) (f a)) : Mirrors k (q >>= g) (p >>= f) := by
  intro s
  rw [bind_apply, bind_apply, hp s]
  rcases p s with ⟨d | a, rest⟩
  · rfl
  · exact hf a rest

theorem mirrors_number (text : String) : Mirrors Expr.unplaced (number text) (number text) := by
  unfold number
  cases Numeral.literal (.text text) with
  | error d => exact mirrors_fail rfl
  | ok text => exact mirrors_pure rfl

theorem Mirrors.typeForm {inner : Parser Ty} (hi : Mirrors id inner inner) :
    Mirrors id (typeForm inner) (typeForm inner) := by
  refine mirrors_peek.bind fun front => ?_
  obtain ⟨kind, text, position⟩ := front
  cases kind
  case kwInt | kwBool => exact mirrors_skip.bind fun _ => mirrors_pure rfl
  case openParen =>
      exact mirrors_skip.bind fun _ => hi.bind fun _ => (mirrors_expect _).bind fun _ =>
        hi.bind fun _ => (mirrors_expect _).bind fun _ => mirrors_pure rfl
  all_goals exact mirrors_fail rfl

theorem mirrors_type (fuel : Nat) : Mirrors id (type fuel) (type fuel) := by
  induction fuel with
  | zero => exact mirrors_peek.bind fun _ => mirrors_fail rfl
  | succ fuel ih => exact ih.typeForm

theorem Mirrors.exprForm {type : Parser Ty} {inner : Parser Expr} (ht : Mirrors id type type)
    (hi : Mirrors Expr.unplaced inner inner) :
    Mirrors Expr.unplaced (exprForm type inner) (exprForm type inner) := by
  refine mirrors_peek.bind fun front => ?_
  obtain ⟨kind, text, position⟩ := front
  cases kind
  case number => exact mirrors_skip.bind fun _ => mirrors_number text
  case kwTrue | kwFalse | name => exact mirrors_skip.bind fun _ => mirrors_pure rfl
  case minus =>
      refine mirrors_skip.bind fun _ => (mirrors_expect _).bind fun _ => hi.bind fun _ =>
        mirrors_peek.bind fun comma => ?_
      rw [Token.kind_unplaced]
      by_cases hcomma : comma.kind = .comma
      · rw [if_pos hcomma, if_pos hcomma]
        exact mirrors_skip.bind fun _ => hi.bind fun _ => (mirrors_expect _).bind fun _ =>
          mirrors_pure rfl
      · rw [if_neg hcomma, if_neg hcomma]
        exact (mirrors_expect _).bind fun _ => mirrors_pure rfl
  case kwZero =>
      exact mirrors_skip.bind fun _ => (mirrors_expect _).bind fun _ => hi.bind fun _ =>
        (mirrors_expect _).bind fun _ => mirrors_pure rfl
  case kwIf =>
      exact mirrors_skip.bind fun _ => hi.bind fun _ => (mirrors_expect _).bind fun _ =>
        hi.bind fun _ => (mirrors_expect _).bind fun _ => hi.bind fun _ => mirrors_pure rfl
  case kwLet =>
      exact mirrors_skip.bind fun _ => (mirrors_expect _).bind fun _ =>
        (mirrors_expect _).bind fun _ => hi.bind fun _ => (mirrors_expect _).bind fun _ =>
        hi.bind fun _ => mirrors_pure rfl
  case kwProc =>
      exact mirrors_skip.bind fun _ => (mirrors_expect _).bind fun _ =>
        (mirrors_expect _).bind fun _ => (mirrors_expect _).bind fun _ => ht.bind fun _ =>
        (mirrors_expect _).bind fun _ => hi.bind fun _ => mirrors_pure rfl
  case openParen =>
      exact mirrors_skip.bind fun _ => hi.bind fun _ => hi.bind fun _ =>
        (mirrors_expect _).bind fun _ => mirrors_pure rfl
  case kwLetrec =>
      exact mirrors_skip.bind fun _ => ht.bind fun _ => (mirrors_expect _).bind fun _ =>
        (mirrors_expect _).bind fun _ => (mirrors_expect _).bind fun _ =>
        (mirrors_expect _).bind fun _ => ht.bind fun _ => (mirrors_expect _).bind fun _ =>
        hi.bind fun _ => (mirrors_expect _).bind fun _ => hi.bind fun _ => mirrors_pure rfl
  case kwAssert =>
      exact mirrors_skip.bind fun _ => hi.bind fun _ => (mirrors_expect _).bind fun _ =>
        hi.bind fun _ => mirrors_pure rfl
  all_goals exact mirrors_fail rfl

theorem mirrors_expr (fuel : Nat) : Mirrors Expr.unplaced (expr fuel) (expr fuel) := by
  induction fuel with
  | zero => exact mirrors_peek.bind fun _ => mirrors_fail rfl
  | succ fuel ih => exact (mirrors_type fuel).exprForm ih

theorem mirrors_program : Mirrors Expr.unplaced program program := by
  intro s
  unfold program
  rw [s.length_pending_unplaced]
  refine ((mirrors_expr _).bind fun e => mirrors_peek.bind fun front => ?_) s
  rw [Token.kind_unplaced]
  by_cases hfinish : front.kind = .finish
  · rw [if_pos hfinish, if_pos hfinish]
    exact mirrors_pure rfl
  · rw [if_neg hfinish, if_neg hfinish]
    exact mirrors_fail rfl

/-! ## Where the parser stops -/

/-- The parser stops at the token of an index, behind all in front of it, and that is the token that the
error names. -/
structure StopsAt (s : TokenStream) (k : Nat) (d : ParseError) : Prop where
  error : (program s).1 = .error d
  rest : (program s).2.tokens = s.tokens.drop k
  found : ∃ t, s.tokens[k]? = some t ∧ d.found? = some t

/-- A failing parse stops at the token behind all that it has taken, if its numbers are numerals. -/
theorem stopsAt_of_error {s : TokenStream} {d : ParseError}
    (hnumeral : ∀ t ∈ s.pending, t.kind = .number → Numeral.isNumeral t.text = true)
    (h : (program s).1 = .error d) :
    StopsAt s (s.pending.length - (program s).2.pending.length) d := by
  obtain ⟨⟨ts, hs⟩, herror⟩ := orderly_program s
  have htokens : s.tokens = ts ++ (program s).2.tokens := by
    rw [congrArg TokenStream.tokens hs, TokenStream.tokens_prepend]
  have hindex : s.pending.length - (program s).2.pending.length = ts.length := by
    rw [TokenStream.length_eq_of_prepend hs, Nat.add_sub_cancel_right]
  have hfound : d.found? = some (program s).2.head := by
    rcases herror d h with hfound | ⟨t, ht, hkind, hbad, -⟩
    · exact hfound
    · rw [hnumeral t ht hkind] at hbad
      cases hbad
  rw [hindex]
  refine ⟨h, ?_, _, ?_, hfound⟩
  · rw [htokens, List.drop_left]
  · rw [htokens, List.getElem?_append_right (Nat.le_refl _), Nat.sub_self,
      TokenStream.tokens_getElem?_zero]

/-- Streams of the same lexemes are both refused, at the same index and for the same reason, or both read
as the same expression, but for positions. -/
theorem program_cases {s s' : TokenStream} (hs : s.unplaced = s'.unplaced)
    (hnumeral : ∀ t ∈ s.pending, t.kind = .number → Numeral.isNumeral t.text = true)
    (hnumeral' : ∀ t ∈ s'.pending, t.kind = .number → Numeral.isNumeral t.text = true) :
    (∃ d d' k, StopsAt s k d ∧ StopsAt s' k d' ∧ d.unplaced = d'.unplaced) ∨
    ∃ e e', (program s).1 = .ok e ∧ (program s').1 = .ok e' ∧ e.unplaced = e'.unplaced := by
  have hresults : unplaced Expr.unplaced (program s) = unplaced Expr.unplaced (program s') := by
    rw [← mirrors_program s, hs, mirrors_program s']
  have hpending : s.pending.length = s'.pending.length := by
    rw [← s.length_pending_unplaced, hs, s'.length_pending_unplaced]
  rcases hprogram : program s with ⟨d | e, rest⟩ <;>
    rcases hprogram' : program s' with ⟨d' | e', rest'⟩ <;>
    simp only [hprogram, hprogram', unplaced, Prod.mk.injEq, Except.error.injEq, Except.ok.injEq,
      reduceCtorEq, false_and] at hresults
  · obtain ⟨herrors, hrests⟩ := hresults
    have hrest : rest.pending.length = rest'.pending.length := by
      rw [← rest.length_pending_unplaced, hrests, rest'.length_pending_unplaced]
    have hstops := stopsAt_of_error hnumeral (congrArg Prod.fst hprogram)
    have hstops' := stopsAt_of_error hnumeral' (congrArg Prod.fst hprogram')
    rw [hprogram', ← hpending, ← hrest] at hstops'
    rw [hprogram] at hstops
    exact .inl ⟨d, d', _, hstops, hstops', herrors⟩
  · exact .inr ⟨e, e', rfl, rfl, hresults.1⟩

end Parser

/-! ## Errors that differ in a position -/

namespace ParseError

/-- What a message says in front of the position and behind it. -/
def around : ParseError → String × String
  | noExpression t =>
    ((if t.kind = .finish then "Unexpected end of input" else "Unexpected token " ++ t.describe) ++
      " at ", "")
  | noType t => ("Expected type at ", ". Got " ++ t.describe)
  | expected place t => (place.render ++ " at ", ". Got " ++ t.describe)
  | trailing t => ("Unexpected token '" ++ t.text ++ "' at ", "")
  | refused number => (number.message, "")

theorem message_eq {d : ParseError} {t : Token} (h : d.found? = some t) :
    d.message = d.around.1 ++ t.position.render ++ d.around.2 := by
  cases d <;> cases h
  case noExpression | trailing => exact String.append_empty.symm
  case noType | expected => exact String.append_assoc ..

theorem around_unplaced (d : ParseError) : d.unplaced.around = d.around := by
  cases d <;> rfl

theorem found?_unplaced (d : ParseError) : d.unplaced.found? = d.found?.map Token.unplaced := by
  cases d <;> rfl

/-- The two messages are one, but for the positions of the tokens that the errors name. -/
def SameButPlace (d d' : ParseError) : Prop :=
  ∃ t t' front back, d.found? = some t ∧ d'.found? = some t' ∧
    d.message = front ++ t.position.render ++ back ∧ d'.message = front ++ t'.position.render ++ back

theorem sameButPlace_of_unplaced {d d' : ParseError} {t : Token} (h : d.unplaced = d'.unplaced)
    (ht : d.found? = some t) : d.SameButPlace d' := by
  have hfound : d'.found?.map Token.unplaced = some t.unplaced := by
    rw [← found?_unplaced, ← h, found?_unplaced, ht, Option.map_some]
  obtain ⟨t', ht', -⟩ := Option.map_eq_some_iff.1 hfound
  have haround : d'.around = d.around := by
    rw [← around_unplaced, ← h, around_unplaced]
  exact ⟨t, t', d.around.1, d.around.2, ht, ht', message_eq ht, haround ▸ message_eq ht'⟩

end ParseError

/-! ## Expressions that differ in lines -/

@[simp] theorem Expr.withLines_unplaced (line : Option Int) (e : Expr) :
    e.unplaced.withLines line = e.withLines line := by
  induction e with
  | number | bool | identifier => rfl
  | _ => simp_all only [unplaced, mapAnnotations, withLines, id]

end TypedLet
