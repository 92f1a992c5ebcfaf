import TypedLet.Proofs.Expr.Kinds
import TypedLet.Proofs.Expr.Recognition

/-!
# The parser stops at the first impossible token

Where a parser fails, what it has taken begins a word of the language that it reads, and with the token
that it stops at it begins none. This holds of a place for a token, and it passes from two parsers to the
one that reads one thing after the other, since what is read first comes from a prefix-free language. So
it holds of every form, and an error of the grammar names the first token behind which no program is
possible any more.
-/

namespace TypedLet

open Token (Kind)

/-- The error names the token. One that ends the input is named only inside a form. -/
def ParseError.Blames (t : Token) : ParseError → Prop
  | noExpression u | noType u | expected _ u => u = t
  | trailing u => u = t ∧ t.kind ≠ .finish
  | refused _ => False

theorem ParseError.Blames.found? {d : ParseError} {t : Token} (h : d.Blames t) : d.found? = some t := by
  cases d with
  | noExpression u | noType u | expected place u => exact congrArg some h
  | trailing u => exact congrArg some h.1
  | refused number => exact h.elim

namespace TokenStream

/-- The number tokens of the stream hold numerals. -/
def Numerals (s : TokenStream) : Prop :=
  ∀ t ∈ s.pending, t.kind = .number → Numeral.isNumeral t.text = true

theorem Numerals.of_prepend {s : TokenStream} {ts : List Token} (h : (s.prepend ts).Numerals) :
    s.Numerals :=
  fun t ht => h t (List.mem_append_right ts ht)

theorem Numerals.tail {s : TokenStream} (h : s.Numerals) : s.tail.Numerals :=
  fun t ht => h t (List.mem_of_mem_tail ht)

end TokenStream

namespace Parser

open TokenStream

variable {α β : Type} {p : Parser α} {f : α → Parser β} {s : TokenStream} {n : Nat}
  {K L M : Language Kind}

/-! ## One parser -/

/-- Where the parser fails on this stream, what it has taken begins a word of the language, and with the
token that it stops at, which the error names, it begins none. -/
def FailsAt (L : Language Kind) (p : Parser α) (s : TokenStream) : Prop :=
  ∀ d r, p s = (.error d, r) → ∃ ts, s = r.prepend ts ∧ d.Blames r.head ∧
    (∃ k w, ts.map Token.kind ++ k :: w ∈ L) ∧ ∀ w, ts.map Token.kind ++ r.head.kind :: w ∉ L

/-- The language has a word, and the parser fails as `FailsAt` says on streams of less than `n` tokens. -/
structure FailsBelow (n : Nat) (L : Language Kind) (p : Parser α) : Prop where
  inhabited : ∃ w, w ∈ L
  failsAt : ∀ {s : TokenStream}, s.pending.length < n → s.Numerals → FailsAt L p s

/-- What the parser takes where it succeeds is a word of the language. -/
def Reads (L : Language Kind) (p : Parser α) : Prop :=
  ∀ s a r, p s = (.ok a, r) → ∃ ts, s = r.prepend ts ∧ ts.map Token.kind ∈ L

theorem reads_expect {place : Expectation} {k : Kind} (hk : place.kind = k) :
    Reads {[k]} (expect place) := by
  intro s t r h
  obtain ⟨hkind, rfl⟩ := expect_eq_ok.1 h
  exact ⟨[t], rfl, congrArg (fun k => [k]) (hkind.trans hk)⟩

theorem reads_type (fuel : Nat) : Reads tyKinds (type fuel) := fun _ _ _ h =>
  let ⟨ts, hs, hphrase⟩ := type_sound h
  ⟨ts, hs, hphrase.map_kind_mem⟩

theorem reads_expr (fuel : Nat) : Reads exprKinds (expr fuel) := fun _ _ _ h =>
  let ⟨ts, hs, hphrase⟩ := expr_sound h
  ⟨ts, hs, hphrase.map_kind_mem⟩

theorem failsAt_fail {d : ParseError} (hblames : d.Blames s.head) (hL : ∃ k w, k :: w ∈ L)
    (hnone : ∀ w, s.head.kind :: w ∉ L) : FailsAt L (fail d : Parser α) s := by
  intro d' r h
  cases h
  exact ⟨[], rfl, hblames, hL, hnone⟩

theorem failsAt_expect {place : Expectation} {k : Kind} (hk : place.kind = k) (hL : ∃ w, k :: w ∈ L)
    (hnone : s.head.kind ≠ k → ∀ w, s.head.kind :: w ∉ L) : FailsAt L (expect place) s := by
  subst hk
  intro d r h
  rw [expect_apply] at h
  by_cases hkind : s.head.kind = place.kind
  · rw [if_pos hkind] at h
    cases h
  · rw [if_neg hkind] at h
    cases h
    exact ⟨[], rfl, rfl, ⟨_, hL⟩, hnone hkind⟩

theorem failsAt_skip_pure (a : α) : FailsAt L (skip >>= fun _ => Pure.pure a) s :=
  fun _ _ h => nomatch h

theorem failsAt_number (hnumerals : s.Numerals) (hkind : s.head.kind = .number) :
    FailsAt L (skip >>= fun _ => number s.head.text) s := by
  obtain ⟨t, rest, rfl⟩ := exists_push (s := s) (by rw [hkind]; decide)
  have hnumeral : Numeral.isNumeral t.text = true := hnumerals t List.mem_cons_self hkind
  intro d r h
  have hread : (skip >>= fun _ => number t.text) (rest.push t) = (.ok (.number t.text), rest) :=
    number_eq_ok.2 ⟨hnumeral, rfl, rfl⟩
  rw [head_push, hread] at h
  cases h

theorem failsAt_peek_bind {f : Token → Parser β} (h : FailsAt L (f s.head) s) :
    FailsAt L (peek >>= f) s := h

/-- Where the second parser cannot fail, the first one alone counts. -/
theorem FailsAt.bind_pure {g : α → β} (h : FailsAt L p s) :
    FailsAt L (p >>= fun a => Pure.pure (g a)) s := by
  intro d r hfail
  rw [bind_apply] at hfail
  rcases hp : p s with ⟨d' | a, r'⟩ <;> rw [hp] at hfail <;> cases hfail
  exact h _ _ hp

/-! ## One thing after the other -/

theorem append_mem_mul_iff (hK : PrefixFree K) {u v : List Kind} (hu : u ∈ K) :
    u ++ v ∈ K * M ↔ v ∈ M := by
  constructor
  · intro h
    obtain ⟨a, ha, b, hb, heq⟩ := Language.mem_mul.1 h
    obtain ⟨-, rfl⟩ := hK.append_cancel ha hu heq
    exact hb
  · exact Language.append_mem_mul hu

/-- What begins a word of the first factor and cannot go on there begins no word of the product either. -/
theorem append_cons_not_mem_mul (hK : PrefixFree K) {u : List Kind} {k : Kind} (hu : ∃ k w, u ++ k :: w ∈ K)
    (hk : ∀ w, u ++ k :: w ∉ K) (w : List Kind) : u ++ k :: w ∉ K * M := by
  intro hmem
  obtain ⟨a, ha, b, -, heq⟩ := Language.mem_mul.1 hmem
  -- The word `a` of the first factor ends in front of `k`, at it or behind it.
  have hpre : a <+: (u ++ [k]) ++ w := ⟨b, by rw [heq, List.append_assoc, List.singleton_append]⟩
  rcases List.prefix_or_prefix_of_prefix hpre (List.prefix_append _ _) with hshort | ⟨c, rfl⟩
  · rcases List.prefix_concat_iff.1 hshort with rfl | hle
    · exact hk [] ha
    · obtain ⟨k', w', hu⟩ := hu
      have heq := hK ha hu (hle.trans (List.prefix_append _ _))
      have hlength := hle.length_le
      rw [heq, List.length_append, List.length_cons] at hlength
      omega
  · rw [List.append_assoc, List.singleton_append] at ha
    exact hk c ha

theorem FailsBelow.bind [Inhabited α] (hp : FailsBelow n K p) (hreads : Reads K p) (hK : PrefixFree K)
    (hf : ∀ a, FailsBelow n M (f a)) : FailsBelow n (K * M) (p >>= f) where
  inhabited := by
    obtain ⟨u, hu⟩ := hp.inhabited
    obtain ⟨v, hv⟩ := (hf default).inhabited
    exact ⟨u ++ v, Language.append_mem_mul hu hv⟩
  failsAt {s} hs hnumerals := by
    intro d r hfail
    rw [bind_apply] at hfail
    rcases hps : p s with ⟨d' | a, rest⟩ <;> rw [hps] at hfail
    · cases hfail
      obtain ⟨ts, hts, hblames, hbegins, hnone⟩ := hp.failsAt hs hnumerals _ _ hps
      refine ⟨ts, hts, hblames, ?_, append_cons_not_mem_mul hK hbegins hnone⟩
      obtain ⟨k, w, hw⟩ := hbegins
      obtain ⟨v, hv⟩ := (hf default).inhabited
      exact ⟨k, w ++ v, by simpa using Language.append_mem_mul hw hv⟩
    · -- What the first parser has taken is a word, so only the second factor is left to decide.
      obtain ⟨ts, rfl, hword⟩ := hreads _ _ _ hps
      have hlength : rest.pending.length < n := by
        rw [pending_prepend, List.length_append] at hs
        omega
      obtain ⟨us, rfl, hblames, ⟨k, w, hw⟩, hnone⟩ :=
        (hf a).failsAt hlength hnumerals.of_prepend _ _ hfail
      refine ⟨ts ++ us, (prepend_append ts us r).symm, hblames, ⟨k, w, ?_⟩, fun v hv => ?_⟩
      · rw [List.map_append, List.append_assoc]
        exact (append_mem_mul_iff hK hword).2 hw
      · rw [List.map_append, List.append_assoc] at hv
        exact hnone v ((append_mem_mul_iff hK hword).1 hv)

theorem FailsBelow.bind_pure {g : α → β} (h : FailsBelow n L p) :
    FailsBelow n L (p >>= fun a => Pure.pure (g a)) where
  inhabited := h.inhabited
  failsAt hs hnumerals := (h.failsAt hs hnumerals).bind_pure

theorem failsBelow_expect {place : Expectation} {k : Kind} (hk : place.kind = k) :
    FailsBelow n {[k]} (expect place) where
  inhabited := ⟨_, rfl⟩
  failsAt _ _ := failsAt_expect hk ⟨[], rfl⟩ fun hkind _ hw => hkind (List.cons.inj hw).1

theorem FailsBelow.expect_bind {place : Expectation} {k : Kind} {f : Token → Parser β}
    (hk : place.kind = k) (hf : ∀ t, FailsBelow n M (f t)) :
    FailsBelow n ({[k]} * M) (expect place >>= f) :=
  (failsBelow_expect hk).bind (reads_expect hk) (prefixFree_singleton _) hf

theorem failsBelow_last {place : Expectation} {k : Kind} (hk : place.kind = k) {g : Token → β} :
    FailsBelow n {[k]} (expect place >>= fun t => Pure.pure (g t)) :=
  (failsBelow_expect hk).bind_pure

theorem FailsBelow.type_bind {type : Parser Ty} {f : Ty → Parser β} (ht : FailsBelow n tyKinds type)
    (hreads : Reads tyKinds type) (hf : ∀ t, FailsBelow n M (f t)) :
    FailsBelow n (tyKinds * M) (type >>= f) :=
  ht.bind hreads prefixFree_tyKinds hf

theorem FailsBelow.expr_bind {inner : Parser Expr} {f : Expr → Parser β}
    (hi : FailsBelow n exprKinds inner) (hreads : Reads exprKinds inner)
    (hf : ∀ e, FailsBelow n M (f e)) : FailsBelow n (exprKinds * M) (inner >>= f) :=
  hi.bind hreads prefixFree_exprKinds hf

/-- Behind a token that is taken, a word that begins with its kind goes on as a word of what follows. -/
theorem FailsBelow.skip_bind {k : Kind} {f : Unit → Parser β} (h : FailsBelow n M (f ()))
    (hs : s.pending.length < n + 1) (hnumerals : s.Numerals) (hkind : s.head.kind = k)
    (hk : k ≠ .finish) (hL : ∀ w, k :: w ∈ L ↔ w ∈ M) : FailsAt L (skip >>= f) s := by
  subst hkind
  obtain ⟨t, rest, rfl⟩ := exists_push hk
  intro d r hfail
  rw [pending_push, List.length_cons, Nat.add_lt_add_iff_right] at hs
  rw [bind_apply, skip_apply, tail_push] at hfail
  obtain ⟨ts, rfl, hblames, ⟨j, w, hw⟩, hnone⟩ := h.failsAt hs hnumerals.tail _ _ hfail
  exact ⟨t :: ts, rfl, hblames, ⟨j, w, (hL _).2 hw⟩, fun v hv => hnone v ((hL _).1 hv)⟩

/-- A comma tells that a form goes on; without one it has to be closed. -/
theorem FailsBelow.comma_or_close {place : Expectation} {f : Unit → Parser β} {g : Token → β}
    (hplace : place.kind = .closeParen) (hf : FailsBelow n M (f ())) :
    FailsBelow n ({[.closeParen]} + {[.comma]} * M) (peek >>= fun front =>
      if front.kind = .comma then skip >>= f else expect place >>= fun t => Pure.pure (g t)) where
  inhabited := ⟨[.closeParen], .inl rfl⟩
  failsAt {s} hs hnumerals := by
    refine failsAt_peek_bind ?_
    by_cases hcomma : s.head.kind = .comma
    · rw [if_pos hcomma]
      refine hf.skip_bind (Nat.lt_succ_of_lt hs) hnumerals hcomma (by decide) fun w => ?_
      simp [cons_mem_add_single_mul]
    · rw [if_neg hcomma]
      refine (failsAt_expect hplace ⟨[], .inl rfl⟩ fun hclose w hw => ?_).bind_pure
      simp [cons_mem_add_single_mul, hcomma, hclose] at hw

/-! ## The forms -/

theorem FailsBelow.typeForm {inner : Parser Ty} (h : FailsBelow n tyKinds inner)
    (hreads : Reads tyKinds inner) : FailsBelow (n + 1) tyKinds (typeForm inner) where
  inhabited := ⟨[.kwInt], cons_mem_tyKinds_iff.2 rfl⟩
  failsAt {s} hs hnumerals := by
    refine failsAt_peek_bind ?_
    cases hkind : s.head.kind
    case kwInt | kwBool => exact failsAt_skip_pure _
    case openParen =>
        refine FailsBelow.skip_bind ?_ hs hnumerals hkind (by decide) fun _ => cons_mem_tyKinds_iff
        rw [tyTail]
        exact h.type_bind hreads fun _ => .expect_bind rfl fun _ => h.type_bind hreads fun _ =>
          failsBelow_last (by rfl)
    all_goals
      refine failsAt_fail rfl ⟨.kwInt, [], cons_mem_tyKinds_iff.2 rfl⟩ fun w hw => ?_
      rw [hkind, cons_mem_tyKinds_iff] at hw
      exact Language.notMem_zero w hw

theorem type_failsBelow (n : Nat) : FailsBelow n tyKinds (type n) := by
  induction n with
  | zero => exact ⟨⟨[.kwInt], cons_mem_tyKinds_iff.2 rfl⟩, fun hs => absurd hs (Nat.not_lt_zero _)⟩
  | succ n ih => exact ih.typeForm (reads_type n)

theorem FailsBelow.behind_expr {k : Kind} {f : Unit → Parser β} (h : FailsBelow n (exprTail k) (f ()))
    (hs : s.pending.length < n + 1) (hnumerals : s.Numerals) (hkind : s.head.kind = k)
    (hk : k ≠ .finish) : FailsAt exprKinds (skip >>= f) s :=
  h.skip_bind hs hnumerals hkind hk fun _ => cons_mem_exprKinds_iff

theorem FailsBelow.exprForm {type : Parser Ty} {inner : Parser Expr} (ht : FailsBelow n tyKinds type)
    (hi : FailsBelow n exprKinds inner) (hrt : Reads tyKinds type) (hri : Reads exprKinds inner) :
    FailsBelow (n + 1) exprKinds (exprForm type inner) where
  inhabited := ⟨[.name], cons_mem_exprKinds_iff.2 rfl⟩
  failsAt {s} hs hnumerals := by
    refine failsAt_peek_bind ?_
    cases hkind : s.head.kind
    case kwTrue | kwFalse | name => exact failsAt_skip_pure _
    case number => exact failsAt_number hnumerals hkind
    case minus =>
        refine FailsBelow.behind_expr ?_ hs hnumerals hkind (by decide)
        rw [exprTail]
        exact .expect_bind rfl fun _ => hi.expr_bind hri fun _ => .comma_or_close rfl
          (hi.expr_bind hri fun _ => failsBelow_last (by rfl))
    case kwZero =>
        refine FailsBelow.behind_expr ?_ hs hnumerals hkind (by decide)
        rw [exprTail]
        exact .expect_bind rfl fun _ => hi.expr_bind hri fun _ => failsBelow_last (by rfl)
    case kwIf =>
        refine FailsBelow.behind_expr ?_ hs hnumerals hkind (by decide)
        rw [exprTail]
        exact hi.expr_bind hri fun _ => .expect_bind rfl fun _ => hi.expr_bind hri fun _ =>
          .expect_bind rfl fun _ => hi.bind_pure
    case kwLet =>
        refine FailsBelow.behind_expr ?_ hs hnumerals hkind (by decide)
        rw [exprTail]
        exact .expect_bind rfl fun _ => .expect_bind rfl fun _ => hi.expr_bind hri fun _ =>
          .expect_bind rfl fun _ => hi.bind_pure
    case kwProc =>
        refine FailsBelow.behind_expr ?_ hs hnumerals hkind (by decide)
        rw [exprTail]
        exact .expect_bind rfl fun _ => .expect_bind rfl fun _ => .expect_bind rfl fun _ =>
          ht.type_bind hrt fun _ => .expect_bind rfl fun _ => hi.bind_pure
    case openParen =>
        refine FailsBelow.behind_expr ?_ hs hnumerals hkind (by decide)
        rw [exprTail]
        exact hi.expr_bind hri fun _ => hi.expr_bind hri fun _ => failsBelow_last (by rfl)
    case kwLetrec =>
        refine FailsBelow.behind_expr ?_ hs hnumerals hkind (by decide)
        rw [exprTail]
        exact ht.type_bind hrt fun _ => .expect_bind rfl fun _ => .expect_bind rfl fun _ =>
          .expect_bind rfl fun _ => .expect_bind rfl fun _ => ht.type_bind hrt fun _ =>
          .expect_bind rfl fun _ => hi.expr_bind hri fun _ => .expect_bind rfl fun _ => hi.bind_pure
    case kwAssert =>
        refine FailsBelow.behind_expr ?_ hs hnumerals hkind (by decide)
        rw [exprTail]
        exact hi.expr_bind hri fun _ => .expect_bind rfl fun _ => hi.bind_pure
    all_goals
      refine failsAt_fail rfl ⟨.name, [], cons_mem_exprKinds_iff.2 rfl⟩ fun w hw => ?_
      rw [hkind, cons_mem_exprKinds_iff] at hw
      exact Language.notMem_zero w hw

theorem expr_failsBelow (n : Nat) : FailsBelow n exprKinds (expr n) := by
  induction n with
  | zero => exact ⟨⟨[.name], cons_mem_exprKinds_iff.2 rfl⟩, fun hs => absurd hs (Nat.not_lt_zero _)⟩
  | succ n ih => exact (type_failsBelow n).exprForm ih (reads_type n) (reads_expr n)

/-! ## Programs -/

theorem failsBelow_finish (n : Nat) (e : Expr) : FailsBelow n {[.finish]}
    (peek >>= fun front => if front.kind = .finish then Pure.pure e else fail (.trailing front)) where
  inhabited := ⟨[.finish], rfl⟩
  failsAt {s} _ _ := by
    refine failsAt_peek_bind ?_
    by_cases hfinish : s.head.kind = .finish
    · rw [if_pos hfinish]
      exact fun _ _ h => nomatch h
    · rw [if_neg hfinish]
      exact failsAt_fail ⟨rfl, hfinish⟩ ⟨.finish, [], rfl⟩ fun w hw => hfinish (List.cons.inj hw).1

theorem program_failsAt (hnumerals : s.Numerals) : FailsAt (exprKinds * {[.finish]}) program s :=
  ((expr_failsBelow _).expr_bind (reads_expr _) (failsBelow_finish _)).failsAt (Nat.lt_succ_self _)
    hnumerals

end Parser

/-! ## Lists of tokens -/

/-- There is a program that starts with tokens of these kinds. -/
def Viable (tokens : List Token) : Prop :=
  ∃ ts e finish, ExprPhrase ts e ∧ finish.kind = .finish ∧
    tokens.map Token.kind <+: (ts ++ [finish]).map Token.kind

theorem viable_iff {tokens : List Token} :
    Viable tokens ↔ ∃ w, tokens.map Token.kind ++ w ∈ exprKinds * ({[.finish]} : Language Kind) := by
  constructor
  · rintro ⟨ts, e, finish, hphrase, hfinish, w, hw⟩
    refine ⟨w, ?_⟩
    rw [hw, List.map_append, List.map_singleton, hfinish]
    exact Language.append_mem_mul hphrase.map_kind_mem rfl
  · rintro ⟨w, hw⟩
    obtain ⟨_, ⟨ts, e, hphrase, rfl⟩, _, rfl, heq⟩ := Language.mem_mul.1 hw
    refine ⟨ts, e, .ofKind .finish, hphrase, rfl, w, ?_⟩
    rw [← heq, List.map_append]
    rfl

theorem Viable.of_prefix {tokens front : List Token} (h : Viable tokens) (hfront : front <+: tokens) :
    Viable front :=
  let ⟨ts, e, finish, hphrase, hfinish, hpre⟩ := h
  ⟨ts, e, finish, hphrase, hfinish, (hfront.map Token.kind).trans hpre⟩

/-- The message says where the token is and, unless it ends the input, what its text is. -/
def Token.NamedIn (t : Token) (message : String) : Prop :=
  message = "Unexpected " ++ (if t.kind = .finish then "end of input" else "token '" ++ t.text ++ "'") ++
      " at " ++ t.position.render ∨
    ∃ call, (call = "Expected type" ∨ ∃ place : Expectation, call = place.render) ∧
      message = call ++ " at " ++ t.position.render ++ ". Got " ++ t.describe

theorem ParseError.Blames.namedIn {d : ParseError} {t : Token} (h : d.Blames t) :
    t.NamedIn d.message := by
  cases d with
  | noExpression u =>
      cases h
      refine .inl ?_
      change (if t.kind = .finish then "Unexpected end of input" else "Unexpected token " ++ t.describe) ++
        " at " ++ t.position.render = _
      by_cases hkind : t.kind = .finish
      · rw [if_pos hkind, if_pos hkind,
          show "Unexpected end of input" = "Unexpected " ++ "end of input" by decide]
      · rw [Token.describe, if_neg hkind, if_neg hkind, if_neg hkind,
          show "Unexpected token " = "Unexpected " ++ "token " by decide,
          show "token '" = "token " ++ "'" by decide]
        simp only [String.append_assoc]
  | noType u =>
      cases h
      exact .inr ⟨_, .inl rfl, rfl⟩
  | expected place u =>
      cases h
      exact .inr ⟨_, .inr ⟨place, rfl⟩, rfl⟩
  | trailing u =>
      obtain ⟨rfl, hkind⟩ := h
      refine .inl ?_
      unfold message
      rw [if_neg hkind, show "Unexpected token '" = "Unexpected " ++ "token '" by decide,
        show "' at " = "'" ++ " at " by decide]
      simp only [String.append_assoc]
  | refused number => exact h.elim

theorem TokenStream.head_prefix_tokens (s : TokenStream) : [s.head] <+: s.tokens := by
  obtain ⟨_ | ⟨t, ts⟩, finish, hfinish⟩ := s <;> exact ⟨_, rfl⟩

theorem TokenStream.tokens_prefix_of_ofTokens? {tokens : List Token} {s : TokenStream}
    (h : ofTokens? tokens = some s) : s.tokens <+: tokens := by
  induction tokens generalizing s with
  | nil => cases h
  | cons t ts ih =>
      rw [ofTokens?] at h
      by_cases ht : t.kind = .finish
      · rw [dif_pos ht] at h
        cases h
        exact ⟨ts, rfl⟩
      · rw [dif_neg ht] at h
        obtain ⟨r, hr, rfl⟩ := Option.map_eq_some_iff.1 h
        exact List.cons_prefix_cons.2 ⟨rfl, ih hr⟩

namespace Parser

theorem program_first_impossible {s : TokenStream} {d : ParseError} (hnumerals : s.Numerals)
    (h : (program s).1 = .error d) : ∃ ts t, ts ++ [t] <+: s.tokens ∧ d.Blames t ∧ Viable ts ∧
      ¬ Viable (ts ++ [t]) := by
  obtain ⟨ts, hts, hblames, ⟨k, w, hword⟩, hnone⟩ :=
    program_failsAt hnumerals d (program s).2 (Prod.ext h rfl)
  refine ⟨ts, (program s).2.head, ?_, hblames, viable_iff.2 ⟨k :: w, hword⟩, fun himpossible => ?_⟩
  · rw [congrArg TokenStream.tokens hts, TokenStream.tokens_prepend]
    exact (List.prefix_append_right_inj ts).2 (program s).2.head_prefix_tokens
  · obtain ⟨v, hv⟩ := viable_iff.1 himpossible
    rw [List.map_append, List.append_assoc] at hv
    exact hnone v hv

/-- The parser points at the first impossible token. A list with a token that ends the input, in which
every number token holds a numeral, is refused only if its tokens up to the end start no program. The error
is then about the first token with which the list starts none any more: the tokens in front of it start
some program. The message says where that token is and what its text is, or that the input ends there. -/
theorem error_names_first_impossible {tokens : List Token} (hfinish : ∃ t ∈ tokens, t.kind = .finish)
    (hnumeral : ∀ t ∈ tokens, t.kind = .number → Numeral.isNumeral t.text = true) :
    ∃ s, TokenStream.ofTokens? tokens = some s ∧
      ((∃ e, (program s).1 = .ok e) ↔ Viable s.tokens) ∧
      ∀ d, (program s).1 = .error d → ∃ k t, tokens[k]? = some t ∧
        IsLeast {i | ¬ Viable (tokens.take (i + 1))} k ∧ Viable (tokens.take k) ∧
        d.found? = some t ∧ t.NamedIn d.message := by
  obtain ⟨s, hs, hpending⟩ := TokenStream.exists_ofTokens? hfinish
  have htokens := TokenStream.tokens_prefix_of_ofTokens? hs
  have hnumerals : s.Numerals := fun t ht =>
    hnumeral t (htokens.subset (List.mem_append_left _ ht))
  refine ⟨s, hs, ⟨?_, fun hviable => ?_⟩, fun d hd => ?_⟩
  · rintro ⟨e, he⟩
    have hphrase : ExprPhrase s.pending e := by
      refine (program_iff_phrase (fun t ht => ?_) hnumerals).1 he
      rw [hpending] at ht
      simpa using List.mem_takeWhile_imp ht
    exact ⟨s.pending, e, s.finish, hphrase, s.finish_kind, List.prefix_rfl⟩
  · cases hresult : (program s).1 with
    | ok e => exact ⟨e, rfl⟩
    | error d =>
        obtain ⟨ts, t, hfront, -, -, himpossible⟩ := program_first_impossible hnumerals hresult
        exact absurd (hviable.of_prefix hfront) himpossible
  · obtain ⟨ts, t, hfront, hblames, hviable, himpossible⟩ := program_first_impossible hnumerals hd
    obtain ⟨more, rfl⟩ := hfront.trans htokens
    refine ⟨ts.length, t, by simp, ⟨?_, fun i hi => ?_⟩, by simpa using hviable, hblames.found?,
      hblames.namedIn⟩
    · rw [Set.mem_ofPred_eq, List.take_left' (by simp)]
      exact himpossible
    · by_contra hlt
      refine hi (hviable.of_prefix ?_)
      rw [List.append_assoc, List.take_append_of_le_length (by omega)]
      exact List.take_prefix _ _

/-- The tokens of `-(x 1)`, where a comma is missing. -/
def missingComma : List Token :=
  [⟨.minus, "-", ⟨1, 1⟩⟩, ⟨.openParen, "(", ⟨1, 2⟩⟩, ⟨.name, "x", ⟨1, 3⟩⟩, ⟨.number, "1", ⟨1, 5⟩⟩,
    ⟨.closeParen, ")", ⟨1, 6⟩⟩, .endAt ⟨1, 7⟩]

theorem missingComma_refused : ∃ s, TokenStream.ofTokens? missingComma = some s ∧
    (program s).1 = .error (.expected .closeAfterMinuend ⟨.number, "1", ⟨1, 5⟩⟩) ∧
    IsLeast {i | ¬ Viable (missingComma.take (i + 1))} 3 ∧ Viable (missingComma.take 3) ∧
    Token.NamedIn ⟨.number, "1", ⟨1, 5⟩⟩
      "Expected ',' or ')' after argument of '-' at line 1, column 5. Got '1'" := by
  have hfinish : ∃ t ∈ missingComma, t.kind = .finish := ⟨.endAt ⟨1, 7⟩, by decide, rfl⟩
  have hnumeral : ∀ t ∈ missingComma, t.kind = .number → Numeral.isNumeral t.text = true := by decide
  obtain ⟨s, hs, -, hfirst⟩ := error_names_first_impossible hfinish hnumeral
  obtain rfl := Option.some.inj (hs.symm.trans (rfl : _ = some
    (⟨missingComma.dropLast, .endAt ⟨1, 7⟩, rfl⟩ : TokenStream)))
  have herror : (program ⟨missingComma.dropLast, .endAt ⟨1, 7⟩, rfl⟩).1 =
      .error (.expected .closeAfterMinuend ⟨.number, "1", ⟨1, 5⟩⟩) := rfl
  obtain ⟨k, t, ht, hleast, hviable, hfound, hnamed⟩ := hfirst _ herror
  obtain rfl := Option.some.inj hfound
  -- The token that is named is in the list once.
  have hindex : k = 3 := by
    have hnodup : missingComma.Nodup := by decide
    obtain ⟨hk, hget⟩ := List.getElem?_eq_some_iff.1 ht
    exact hnodup.getElem_inj_iff.1 (hget.trans (rfl : _ = missingComma[3]))
  subst hindex
  exact ⟨_, hs, herror, hleast, hviable, hnamed⟩

end Parser

end TypedLet
