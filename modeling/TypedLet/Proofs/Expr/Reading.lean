import TypedLet.Expr.Parser

/-!
# What parsers do to the stream

A parser takes tokens off the front of the stream and never looks past them. Where it fails, the error
names the token that is at the front then, or it refuses the text of a number token that was read. What
stands inside a form is read from fewer tokens, so the reading ends, and a bound on the nesting plays no
part as long as it is larger than the number of tokens.
-/

namespace TypedLet

namespace TokenStream

/-- The stream with some more tokens at the front. -/
def prepend (ts : List Token) (s : TokenStream) : TokenStream :=
  { s with pending := ts ++ s.pending }

@[simp] theorem prepend_nil (s : TokenStream) : s.prepend [] = s := rfl

@[simp] theorem prepend_cons (t : Token) (ts : List Token) (s : TokenStream) :
    s.prepend (t :: ts) = (s.prepend ts).push t := rfl

@[simp] theorem prepend_append (ts us : List Token) (s : TokenStream) :
    s.prepend (ts ++ us) = (s.prepend us).prepend ts := by
  simp [prepend]

@[simp] theorem pending_prepend (ts : List Token) (s : TokenStream) :
    (s.prepend ts).pending = ts ++ s.pending := rfl

theorem tokens_prepend (ts : List Token) (s : TokenStream) :
    (s.prepend ts).tokens = ts ++ s.tokens :=
  List.append_assoc ts s.pending [s.finish]

theorem length_eq_of_prepend {s r : TokenStream} {ts : List Token} (h : s = r.prepend ts) :
    s.pending.length = ts.length + r.pending.length := by
  rw [h, pending_prepend, List.length_append]

theorem exists_push {s : TokenStream} (h : s.head.kind ≠ .finish) : ∃ t r, s = push t r :=
  ⟨s.head, s.tail, (push_head_tail h).symm⟩

end TokenStream

/-- The token that fails the grammar, when it is the grammar that fails. -/
def ParseError.found? : ParseError → Option Token
  | noExpression t | noType t | expected _ t | trailing t => some t
  | refused _ => none

theorem Expectation.kind_ne_finish (place : Expectation) : place.kind ≠ .finish := by
  cases place <;> decide

namespace Parser

open TokenStream

variable {α β : Type} {p q : Parser α} {f g : α → Parser β} {s s' : TokenStream}

/-! ## What a parser leaves when it succeeds -/

theorem bind_eq_ok {b : β} :
    (p >>= f) s = (.ok b, s') ↔ ∃ a r, p s = (.ok a, r) ∧ f a r = (.ok b, s') := by
  rw [bind_apply]
  rcases p s with ⟨e | a, r⟩
  · simp
  · constructor
    · intro h
      exact ⟨a, r, rfl, h⟩
    · rintro ⟨a, r, hp, hf⟩
      cases hp
      exact hf

theorem pure_eq_ok {a b : α} : (Pure.pure a : Parser α) s = (.ok b, s') ↔ a = b ∧ s = s' := by
  simp [pure_apply]

theorem skip_eq_ok {u : Unit} : skip s = (.ok u, s') ↔ s.tail = s' := by
  simp [skip_apply]

theorem peek_eq_ok {t : Token} : peek s = (.ok t, s') ↔ s.head = t ∧ s = s' := by
  simp [peek_apply]

theorem fail_ne_ok {e : ParseError} {a : α} : (fail e : Parser α) s ≠ (.ok a, s') := by
  simp [fail_apply]

/-- The token of a place is taken off the front. -/
theorem expect_eq_ok {place : Expectation} {t : Token} :
    expect place s = (.ok t, s') ↔ t.kind = place.kind ∧ s = s'.push t := by
  rw [expect_apply]
  split
  · rename_i hkind
    have hpush : s.tail.push s.head = s := push_head_tail (hkind ▸ place.kind_ne_finish)
    constructor
    · intro h
      simp only [Prod.mk.injEq, Except.ok.injEq] at h
      obtain ⟨rfl, rfl⟩ := h
      exact ⟨hkind, hpush.symm⟩
    · rintro ⟨-, rfl⟩
      rfl
  · rename_i hkind
    constructor
    · intro h
      simp at h
    · rintro ⟨ht, rfl⟩
      exact absurd ht hkind

theorem expect_push {place : Expectation} {t : Token} (h : t.kind = place.kind) :
    expect place (s.push t) = (.ok t, s) :=
  expect_eq_ok.2 ⟨h, rfl⟩

/-- A number token yields its text, and only a numeral does. -/
theorem number_eq_ok {text : String} {e : Expr} :
    number text s = (.ok e, s') ↔ Numeral.isNumeral text = true ∧ e = .number text ∧ s = s' := by
  unfold number Numeral.literal
  cases h : Numeral.isNumeral text with
  | true => simp [Numeral.Origin.isExact, Numeral.Origin.render, h, pure, eq_comm]
  | false => simp [Numeral.Origin.isExact, Numeral.Origin.render, h, fail]

/-! ## What a parser leaves in any case -/

/-- From this stream the parser takes tokens off the front, and an error names the token that it
stopped at or refuses the text of a number token of the stream. -/
def OrderlyAt (p : Parser α) (s : TokenStream) : Prop :=
  (∃ ts, s = (p s).2.prepend ts) ∧
    ∀ e, (p s).1 = .error e → e.found? = some (p s).2.head ∨
      ∃ t ∈ s.pending, t.kind = .number ∧ Numeral.isNumeral t.text = false ∧
        e = .refused ⟨t.text⟩

/-- The parser is orderly from every stream. -/
def Orderly (p : Parser α) : Prop := ∀ s, OrderlyAt p s

theorem orderlyAt_fail {e : ParseError} (h : e.found? = some s.head) :
    OrderlyAt (fail e : Parser α) s := by
  refine ⟨⟨[], rfl⟩, fun d hd => ?_⟩
  rw [fail_apply, Except.error.injEq] at hd
  exact .inl (hd ▸ h)

/-- What is read once the front token is known, which stays. -/
theorem orderlyAt_peek_bind {f : Token → Parser β} (h : OrderlyAt (f s.head) s) :
    OrderlyAt (peek >>= f) s := h

theorem orderlyAt_number (h : s.head.kind = .number) :
    OrderlyAt (skip >>= fun _ => number s.head.text) s := by
  obtain ⟨t, r, rfl⟩ := exists_push (s := s) (by rw [h]; decide)
  unfold OrderlyAt
  rw [bind_apply, skip_apply]
  simp only [head_push, tail_push] at h ⊢
  unfold number Numeral.literal
  cases hnumeral : Numeral.isNumeral t.text with
  | true =>
      simp only [Numeral.Origin.isExact, Numeral.Origin.render, hnumeral, Bool.and_self, if_true]
      exact ⟨⟨[t], rfl⟩, fun _ h => nomatch h⟩
  | false =>
      simp only [Numeral.Origin.isExact, Numeral.Origin.render, hnumeral, Bool.and_false,
        Bool.false_eq_true, if_false]
      refine ⟨⟨[t], rfl⟩, fun e he => .inr ⟨t, List.mem_cons_self, h, hnumeral, ?_⟩⟩
      rw [fail_apply, Except.error.injEq] at he
      exact he.symm

theorem orderly_pure (a : α) : Orderly (Pure.pure a : Parser α) :=
  fun _ => ⟨⟨[], rfl⟩, fun _ h => nomatch h⟩

theorem orderly_skip : Orderly skip := by
  refine fun s => ⟨?_, fun _ h => nomatch h⟩
  obtain ⟨_ | ⟨t, ts⟩, finish, hfinish⟩ := s
  · exact ⟨[], rfl⟩
  · exact ⟨[t], rfl⟩

theorem orderly_expect (place : Expectation) : Orderly (expect place) := by
  intro s
  by_cases hkind : s.head.kind = place.kind
  · rw [← push_head_tail (s := s) (hkind ▸ place.kind_ne_finish)]
    unfold OrderlyAt
    rw [expect_push hkind]
    exact ⟨⟨[s.head], rfl⟩, fun _ h => nomatch h⟩
  · unfold OrderlyAt
    rw [expect_apply, if_neg hkind]
    exact ⟨⟨[], rfl⟩, fun e he => .inl (by cases he; rfl)⟩

/-- Reading one thing after the other is orderly if both readings are. -/
theorem Orderly.bind (hp : Orderly p) (hf : ∀ a, Orderly (f a)) : Orderly (p >>= f) := by
  intro s
  obtain ⟨⟨ts, hts⟩, hperror⟩ := hp s
  unfold OrderlyAt
  rw [bind_apply]
  rcases hps : p s with ⟨d | a, r⟩
  · rw [hps] at hts hperror
    refine ⟨⟨ts, hts⟩, fun e he => ?_⟩
    exact hperror e (by simpa using he)
  · rw [hps] at hts
    obtain ⟨⟨us, hus⟩, hferror⟩ := hf a r
    refine ⟨⟨ts ++ us, by rw [prepend_append, ← hus, hts]⟩, fun e he => ?_⟩
    rcases hferror e he with hfound | ⟨t, ht, hbad⟩
    · exact .inl hfound
    · refine .inr ⟨t, ?_, hbad⟩
      rw [hts, pending_prepend]
      exact List.mem_append_right ts ht

theorem Orderly.typeForm {inner : Parser Ty} (h : Orderly inner) : Orderly (typeForm inner) := by
  intro s
  refine orderlyAt_peek_bind ?_
  split
  · exact (orderly_skip.bind fun _ => orderly_pure _) s
  · exact (orderly_skip.bind fun _ => orderly_pure _) s
  · exact (orderly_skip.bind fun _ => h.bind fun _ => (orderly_expect _).bind fun _ =>
      h.bind fun _ => (orderly_expect _).bind fun _ => orderly_pure _) s
  · exact orderlyAt_fail rfl

theorem orderly_type (fuel : Nat) : Orderly (type fuel) := by
  induction fuel with
  | zero => exact fun s => orderlyAt_peek_bind (orderlyAt_fail rfl)
  | succ fuel ih => exact ih.typeForm

theorem Orderly.exprForm {type : Parser Ty} {inner : Parser Expr} (ht : Orderly type)
    (hi : Orderly inner) : Orderly (exprForm type inner) := by
  intro s
  refine orderlyAt_peek_bind ?_
  cases hkind : s.head.kind
  case number => exact orderlyAt_number hkind
  case kwTrue | kwFalse | name => exact (orderly_skip.bind fun _ => orderly_pure _) s
  case minus =>
      refine (orderly_skip.bind fun _ => (orderly_expect _).bind fun _ => hi.bind fun _ r =>
        orderlyAt_peek_bind ?_) s
      split
      · exact (orderly_skip.bind fun _ => hi.bind fun _ => (orderly_expect _).bind fun _ =>
          orderly_pure _) r
      · exact ((orderly_expect _).bind fun _ => orderly_pure _) r
  case kwZero =>
      exact (orderly_skip.bind fun _ => (orderly_expect _).bind fun _ => hi.bind fun _ =>
        (orderly_expect _).bind fun _ => orderly_pure _) s
  case kwIf =>
      exact (orderly_skip.bind fun _ => hi.bind fun _ => (orderly_expect _).bind fun _ =>
        hi.bind fun _ => (orderly_expect _).bind fun _ => hi.bind fun _ => orderly_pure _) s
  case kwLet =>
      exact (orderly_skip.bind fun _ => (orderly_expect _).bind fun _ =>
        (orderly_expect _).bind fun _ => hi.bind fun _ => (orderly_expect _).bind fun _ =>
        hi.bind fun _ => orderly_pure _) s
  case kwProc =>
      exact (orderly_skip.bind fun _ => (orderly_expect _).bind fun _ =>
        (orderly_expect _).bind fun _ => (orderly_expect _).bind fun _ => ht.bind fun _ =>
        (orderly_expect _).bind fun _ => hi.bind fun _ => orderly_pure _) s
  case openParen =>
      exact (orderly_skip.bind fun _ => hi.bind fun _ => hi.bind fun _ =>
        (orderly_expect _).bind fun _ => orderly_pure _) s
  case kwLetrec =>
      exact (orderly_skip.bind fun _ => ht.bind fun _ => (orderly_expect _).bind fun _ =>
        (orderly_expect _).bind fun _ => (orderly_expect _).bind fun _ =>
        (orderly_expect _).bind fun _ => ht.bind fun _ => (orderly_expect _).bind fun _ =>
        hi.bind fun _ => (orderly_expect _).bind fun _ => hi.bind fun _ => orderly_pure _) s
  case kwAssert =>
      exact (orderly_skip.bind fun _ => hi.bind fun _ => (orderly_expect _).bind fun _ =>
        hi.bind fun _ => orderly_pure _) s
  all_goals exact orderlyAt_fail rfl

theorem orderly_expr (fuel : Nat) : Orderly (expr fuel) := by
  induction fuel with
  | zero => exact fun s => orderlyAt_peek_bind (orderlyAt_fail rfl)
  | succ fuel ih => exact (orderly_type fuel).exprForm ih

/-! ## Inner forms are read from fewer tokens -/

/-- The parsers do the same on streams of less than `n` tokens. -/
def AgreesBelow (n : Nat) (p q : Parser α) : Prop :=
  ∀ s, s.pending.length < n → p s = q s

theorem agreesBelow_refl (n : Nat) (p : Parser α) : AgreesBelow n p p := fun _ _ => rfl

theorem Orderly.length_le (hp : Orderly p) (s : TokenStream) :
    (p s).2.pending.length ≤ s.pending.length := by
  obtain ⟨⟨ts, hts⟩, -⟩ := hp s
  rw [length_eq_of_prepend hts]
  exact Nat.le_add_left _ _

theorem AgreesBelow.bind {n : Nat} (hpq : AgreesBelow n p q) (hp : Orderly p)
    (hfg : ∀ a, AgreesBelow n (f a) (g a)) : AgreesBelow n (p >>= f) (q >>= g) := by
  intro s hs
  have hlength := hp.length_le s
  rw [bind_apply, bind_apply, ← hpq s hs]
  rcases hps : p s with ⟨e | a, r⟩
  · rfl
  · rw [hps] at hlength
    exact hfg a r (Nat.lt_of_le_of_lt hlength hs)

theorem AgreesBelow.expect_bind {n : Nat} {place : Expectation} {f g : Token → Parser β}
    (hfg : ∀ t, AgreesBelow n (f t) (g t)) :
    AgreesBelow n (expect place >>= f) (expect place >>= g) :=
  (agreesBelow_refl n _).bind (orderly_expect place) hfg

/-- Behind a token that both parsers take, they need to agree on one token less. -/
theorem AgreesBelow.skip_bind {n : Nat} {f g : Unit → Parser β} (h : AgreesBelow n (f ()) (g ()))
    (hs : s.pending.length < n + 1) (hfront : s.head.kind ≠ .finish) :
    (skip >>= f) s = (skip >>= g) s := by
  obtain ⟨t, r, rfl⟩ := exists_push hfront
  rw [pending_push, List.length_cons] at hs
  exact h r (by omega)

/-- A form of `n` tokens reads the types inside it from fewer tokens. -/
theorem AgreesBelow.typeForm {n : Nat} {inner other : Parser Ty} (h : AgreesBelow n inner other)
    (ho : Orderly inner) : AgreesBelow (n + 1) (typeForm inner) (typeForm other) := by
  intro s hs
  rw [Parser.typeForm, Parser.typeForm, bind_apply, bind_apply, peek_apply]
  cases hkind : s.head.kind <;> simp only [hkind]
  case openParen =>
      refine AgreesBelow.skip_bind ?_ hs (by rw [hkind]; decide)
      exact h.bind ho fun _ => .expect_bind fun _ => h.bind ho fun _ => agreesBelow_refl n _

/-- A form of `n` tokens reads the types and the expressions inside it from fewer tokens. -/
theorem AgreesBelow.exprForm {n : Nat} {type type' : Parser Ty} {inner other : Parser Expr}
    (ht : AgreesBelow n type type') (hi : AgreesBelow n inner other) (hot : Orderly type)
    (hoi : Orderly inner) : AgreesBelow (n + 1) (exprForm type inner) (exprForm type' other) := by
  intro s hs
  rw [Parser.exprForm, Parser.exprForm, bind_apply, bind_apply, peek_apply]
  cases hkind : s.head.kind <;> simp only [hkind]
  case minus =>
      -- A comma is one more token, so the second operand starts from a stream short enough, too.
      refine AgreesBelow.skip_bind ?_ hs (by rw [hkind]; decide)
      refine .expect_bind fun _ => hi.bind hoi fun _ => fun r hr => ?_
      rw [bind_apply, bind_apply, peek_apply]
      by_cases hcomma : r.head.kind = .comma
      · simp only [hcomma, if_true]
        refine AgreesBelow.skip_bind ?_ (Nat.lt_succ_of_lt hr) (by rw [hcomma]; decide)
        exact hi.bind hoi fun _ => agreesBelow_refl n _
      · simp only [hcomma, if_false]
  case kwZero =>
      refine AgreesBelow.skip_bind ?_ hs (by rw [hkind]; decide)
      exact .expect_bind fun _ => hi.bind hoi fun _ => agreesBelow_refl n _
  case kwIf =>
      refine AgreesBelow.skip_bind ?_ hs (by rw [hkind]; decide)
      exact hi.bind hoi fun _ => .expect_bind fun _ => hi.bind hoi fun _ => .expect_bind fun _ =>
        hi.bind hoi fun _ => agreesBelow_refl n _
  case kwLet =>
      refine AgreesBelow.skip_bind ?_ hs (by rw [hkind]; decide)
      exact .expect_bind fun _ => .expect_bind fun _ => hi.bind hoi fun _ => .expect_bind fun _ =>
        hi.bind hoi fun _ => agreesBelow_refl n _
  case kwProc =>
      refine AgreesBelow.skip_bind ?_ hs (by rw [hkind]; decide)
      exact .expect_bind fun _ => .expect_bind fun _ => .expect_bind fun _ => ht.bind hot fun _ =>
        .expect_bind fun _ => hi.bind hoi fun _ => agreesBelow_refl n _
  case openParen =>
      refine AgreesBelow.skip_bind ?_ hs (by rw [hkind]; decide)
      exact hi.bind hoi fun _ => hi.bind hoi fun _ => agreesBelow_refl n _
  case kwLetrec =>
      refine AgreesBelow.skip_bind ?_ hs (by rw [hkind]; decide)
      exact ht.bind hot fun _ => .expect_bind fun _ => .expect_bind fun _ => .expect_bind fun _ =>
        .expect_bind fun _ => ht.bind hot fun _ => .expect_bind fun _ => hi.bind hoi fun _ =>
        .expect_bind fun _ => hi.bind hoi fun _ => agreesBelow_refl n _
  case kwAssert =>
      refine AgreesBelow.skip_bind ?_ hs (by rw [hkind]; decide)
      exact hi.bind hoi fun _ => .expect_bind fun _ => hi.bind hoi fun _ => agreesBelow_refl n _

/-! ## Without a bound on the nesting -/

/-- Types that are read form by form to a depth of at least `n` are all the same on streams of less than
`n` tokens, whatever is read at the bottom. -/
theorem typeForms_agreeBelow {T U : Nat → Parser Ty} (hT : ∀ k, T (k + 1) = typeForm (T k))
    (hU : ∀ k, U (k + 1) = typeForm (U k)) (ho : ∀ k, Orderly (T k)) {n a b : Nat} (ha : n ≤ a)
    (hb : n ≤ b) : AgreesBelow n (T a) (U b) := by
  induction n generalizing a b with
  | zero => exact fun s hs => absurd hs (Nat.not_lt_zero _)
  | succ n ih =>
      obtain ⟨a, rfl⟩ := Nat.exists_eq_succ_of_ne_zero (Nat.ne_zero_of_lt ha)
      obtain ⟨b, rfl⟩ := Nat.exists_eq_succ_of_ne_zero (Nat.ne_zero_of_lt hb)
      rw [Nat.succ_eq_add_one, Nat.succ_eq_add_one, hT, hU]
      exact (ih (Nat.le_of_succ_le_succ ha) (Nat.le_of_succ_le_succ hb)).typeForm (ho a)

theorem exprForms_agreeBelow {T U : Nat → Parser Ty} {P Q : Nat → Parser Expr}
    (hP : ∀ k, P (k + 1) = exprForm (T k) (P k)) (hQ : ∀ k, Q (k + 1) = exprForm (U k) (Q k))
    (hTU : ∀ n a b, n ≤ a → n ≤ b → AgreesBelow n (T a) (U b)) (hoT : ∀ k, Orderly (T k))
    (hoP : ∀ k, Orderly (P k)) {n a b : Nat} (ha : n ≤ a) (hb : n ≤ b) :
    AgreesBelow n (P a) (Q b) := by
  induction n generalizing a b with
  | zero => exact fun s hs => absurd hs (Nat.not_lt_zero _)
  | succ n ih =>
      obtain ⟨a, rfl⟩ := Nat.exists_eq_succ_of_ne_zero (Nat.ne_zero_of_lt ha)
      obtain ⟨b, rfl⟩ := Nat.exists_eq_succ_of_ne_zero (Nat.ne_zero_of_lt hb)
      have hna : n ≤ a := Nat.le_of_succ_le_succ ha
      have hnb : n ≤ b := Nat.le_of_succ_le_succ hb
      rw [Nat.succ_eq_add_one, Nat.succ_eq_add_one, hP, hQ]
      exact (hTU n a b hna hnb).exprForm (ih hna hnb) (hoT a) (hoP a)

theorem type_agreesBelow {n a b : Nat} (ha : n ≤ a) (hb : n ≤ b) : AgreesBelow n (type a) (type b) :=
  typeForms_agreeBelow (fun _ => rfl) (fun _ => rfl) orderly_type ha hb

theorem expr_agreesBelow {n a b : Nat} (ha : n ≤ a) (hb : n ≤ b) : AgreesBelow n (expr a) (expr b) :=
  exprForms_agreeBelow (fun _ => rfl) (fun _ => rfl) (fun _ _ _ => type_agreesBelow) orderly_type
    orderly_expr ha hb

/-- The parsers call themselves for the types and the expressions inside a form, with no bound. -/
structure Unbounded (T : Parser Ty) (P : Parser Expr) : Prop where
  type_eq : T = typeForm T
  expr_eq : P = exprForm T P

/-- Reads a type with a bound that is never reached. -/
def wholeType : Parser Ty := fun s => type (s.pending.length + 1) s

/-- Reads an expression with a bound that is never reached. -/
def wholeExpr : Parser Expr := fun s => expr (s.pending.length + 1) s

theorem type_agreesBelow_whole (n : Nat) : AgreesBelow n (type n) wholeType :=
  fun s hs => type_agreesBelow hs (Nat.le_refl _) s (Nat.lt_succ_self _)

theorem expr_agreesBelow_whole (n : Nat) : AgreesBelow n (expr n) wholeExpr :=
  fun s hs => expr_agreesBelow hs (Nat.le_refl _) s (Nat.lt_succ_self _)

theorem unbounded_whole : Unbounded wholeType wholeExpr where
  type_eq := by
    funext s
    exact (type_agreesBelow_whole s.pending.length).typeForm (orderly_type _) s (Nat.lt_succ_self _)
  expr_eq := by
    funext s
    exact (type_agreesBelow_whole s.pending.length).exprForm (expr_agreesBelow_whole s.pending.length)
      (orderly_type _) (orderly_expr _) s (Nat.lt_succ_self _)

/-- Without a bound the calls still determine what is read from every stream. -/
theorem Unbounded.eq_whole {T : Parser Ty} {P : Parser Expr} (h : Unbounded T P) :
    T = wholeType ∧ P = wholeExpr := by
  have hT : ∀ n a b, n ≤ a → n ≤ b → AgreesBelow n (type a) T := fun n a b ha hb =>
    typeForms_agreeBelow (fun _ => rfl) (U := fun _ => T) (fun _ => h.type_eq) orderly_type ha hb
  constructor
  · funext s
    exact (hT _ _ _ (Nat.le_refl _) (Nat.le_refl _) s (Nat.lt_succ_self _)).symm
  · funext s
    exact (exprForms_agreeBelow (fun _ => rfl) (Q := fun _ => P) (fun _ => h.expr_eq) hT orderly_type
      orderly_expr (Nat.le_refl _) (Nat.le_refl _) s (Nat.lt_succ_self _)).symm

end Parser

end TypedLet
