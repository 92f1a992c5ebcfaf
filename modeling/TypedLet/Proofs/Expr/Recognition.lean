import Mathlib.Data.List.TakeWhile
import TypedLet.Proofs.Expr.Grammar
import TypedLet.Proofs.Expr.Reading

/-!
# The parser recognizes the grammar

What the parser takes off the stream is a phrase for the tree it returns, and from a stream that starts
with a phrase it takes that phrase and returns its tree, whatever follows. So the tokens up to the end
of the input are accepted exactly when they are a phrase.
-/

namespace TypedLet

namespace Parser

open TokenStream

variable {s s' : TokenStream}

/-! ## What is read is a phrase -/

/-- What is read as a type is a type of the grammar. -/
theorem type_sound {fuel : Nat} {t : Ty} (h : type fuel s = (.ok t, s')) :
    ∃ ts, s = s'.prepend ts ∧ TyPhrase ts t := by
  induction fuel generalizing s s' t with
  | zero => cases h
  | succ fuel ih =>
      rw [type, typeForm, bind_apply, peek_apply] at h
      by_cases hfinish : s.head.kind = .finish
      · simp only [hfinish] at h
        exact absurd h fail_ne_ok
      obtain ⟨k, r, rfl⟩ := exists_push hfinish
      rw [head_push] at h
      cases hk : k.kind <;> simp only [hk] at h
      case kwInt =>
          simp only [bind_eq_ok, skip_eq_ok, pure_eq_ok, tail_push] at h
          obtain ⟨_, _, rfl, rfl, rfl⟩ := h
          exact ⟨[k], rfl, .int hk⟩
      case kwBool =>
          simp only [bind_eq_ok, skip_eq_ok, pure_eq_ok, tail_push] at h
          obtain ⟨_, _, rfl, rfl, rfl⟩ := h
          exact ⟨[k], rfl, .bool hk⟩
      case openParen =>
          simp only [bind_eq_ok, skip_eq_ok, expect_eq_ok, pure_eq_ok, tail_push] at h
          obtain ⟨_, _, rfl, domain, _, hd, a, _, ⟨ha, rfl⟩, codomain, _, hc, c, _, ⟨hp, rfl⟩, rfl, rfl⟩
            := h
          obtain ⟨ds, rfl, pd⟩ := ih hd
          obtain ⟨cs, rfl, pc⟩ := ih hc
          exact ⟨_, by simp, .arrow hk pd ha pc hp⟩
      all_goals exact absurd h fail_ne_ok

/-- What is read as an expression is an expression of the grammar. -/
theorem expr_sound {fuel : Nat} {e : Expr} (h : expr fuel s = (.ok e, s')) :
    ∃ ts, s = s'.prepend ts ∧ ExprPhrase ts e := by
  induction fuel generalizing s s' e with
  | zero => cases h
  | succ fuel ih =>
      rw [expr, exprForm, bind_apply, peek_apply] at h
      by_cases hfinish : s.head.kind = .finish
      · simp only [hfinish] at h
        exact absurd h fail_ne_ok
      obtain ⟨k, r, rfl⟩ := exists_push hfinish
      rw [head_push] at h
      cases hk : k.kind <;> simp only [hk] at h
      case number =>
          simp only [bind_eq_ok, skip_eq_ok, number_eq_ok, tail_push] at h
          obtain ⟨_, _, rfl, -, rfl, rfl⟩ := h
          exact ⟨[k], rfl, .number hk⟩
      case kwTrue =>
          simp only [bind_eq_ok, skip_eq_ok, pure_eq_ok, tail_push] at h
          obtain ⟨_, _, rfl, rfl, rfl⟩ := h
          exact ⟨[k], rfl, .true hk⟩
      case kwFalse =>
          simp only [bind_eq_ok, skip_eq_ok, pure_eq_ok, tail_push] at h
          obtain ⟨_, _, rfl, rfl, rfl⟩ := h
          exact ⟨[k], rfl, .false hk⟩
      case name =>
          simp only [bind_eq_ok, skip_eq_ok, pure_eq_ok, tail_push] at h
          obtain ⟨_, _, rfl, rfl, rfl⟩ := h
          exact ⟨[k], rfl, .name hk⟩
      case minus =>
          simp only [bind_eq_ok, skip_eq_ok, expect_eq_ok, peek_eq_ok, tail_push] at h
          obtain ⟨_, _, rfl, o, _, ⟨ho, rfl⟩, left, r, hl, _, _, ⟨rfl, rfl⟩, h⟩ := h
          obtain ⟨ls, rfl, pl⟩ := ih hl
          split at h
          · rename_i hcomma
            obtain ⟨a, r, rfl⟩ := exists_push (s := r) (by rw [hcomma]; decide)
            simp only [bind_eq_ok, skip_eq_ok, expect_eq_ok, pure_eq_ok, tail_push] at h
            obtain ⟨_, _, rfl, right, _, hr, c, _, ⟨hc, rfl⟩, rfl, rfl⟩ := h
            obtain ⟨rs, rfl, pr⟩ := ih hr
            exact ⟨_, by simp, .subtract hk ho pl hcomma pr hc⟩
          · simp only [bind_eq_ok, expect_eq_ok, pure_eq_ok] at h
            obtain ⟨c, _, ⟨hc, rfl⟩, rfl, rfl⟩ := h
            exact ⟨_, by simp, .negate hk ho pl hc⟩
      case kwZero =>
          simp only [bind_eq_ok, skip_eq_ok, expect_eq_ok, pure_eq_ok, tail_push] at h
          obtain ⟨_, _, rfl, o, _, ⟨ho, rfl⟩, operand, _, he, c, _, ⟨hc, rfl⟩, rfl, rfl⟩ := h
          obtain ⟨es, rfl, pe⟩ := ih he
          exact ⟨_, by simp, .isZero hk ho pe hc⟩
      case kwIf =>
          simp only [bind_eq_ok, skip_eq_ok, expect_eq_ok, pure_eq_ok, tail_push] at h
          obtain ⟨_, _, rfl, guard, _, hg, t, _, ⟨ht, rfl⟩, thenBranch, _, hth, l, _, ⟨hl, rfl⟩, elseBranch,
            _, hel, rfl, rfl⟩ := h
          obtain ⟨gs, rfl, pg⟩ := ih hg
          obtain ⟨ts, rfl, pth⟩ := ih hth
          obtain ⟨es, rfl, pel⟩ := ih hel
          exact ⟨_, by simp, .ite hk pg ht pth hl pel⟩
      case kwLet =>
          simp only [bind_eq_ok, skip_eq_ok, expect_eq_ok, pure_eq_ok, tail_push] at h
          obtain ⟨_, _, rfl, x, _, ⟨hx, rfl⟩, q, _, ⟨hq, rfl⟩, init, _, hi, i, _, ⟨hn, rfl⟩, body, _, hb,
            rfl, rfl⟩ := h
          obtain ⟨is, rfl, pi⟩ := ih hi
          obtain ⟨bs, rfl, pb⟩ := ih hb
          exact ⟨_, by simp, .letIn hk hx hq pi hn pb⟩
      case kwProc =>
          simp only [bind_eq_ok, skip_eq_ok, expect_eq_ok, pure_eq_ok, tail_push] at h
          obtain ⟨_, _, rfl, o, _, ⟨ho, rfl⟩, x, _, ⟨hx, rfl⟩, n, _, ⟨hn, rfl⟩, paramType, _, ht, c, _,
            ⟨hc, rfl⟩, body, _, hb, rfl, rfl⟩ := h
          obtain ⟨ts, rfl, pt⟩ := type_sound ht
          obtain ⟨bs, rfl, pb⟩ := ih hb
          exact ⟨_, by simp, .proc hk ho hx hn pt hc pb⟩
      case openParen =>
          simp only [bind_eq_ok, skip_eq_ok, expect_eq_ok, pure_eq_ok, tail_push] at h
          obtain ⟨_, _, rfl, fn, _, hf, arg, _, ha, c, _, ⟨hc, rfl⟩, rfl, rfl⟩ := h
          obtain ⟨fs, rfl, pf⟩ := ih hf
          obtain ⟨as, rfl, pa⟩ := ih ha
          exact ⟨_, by simp, .apply hk pf pa hc⟩
      case kwLetrec =>
          simp only [bind_eq_ok, skip_eq_ok, expect_eq_ok, pure_eq_ok, tail_push] at h
          obtain ⟨_, _, rfl, returnType, _, hr, f, _, ⟨hf, rfl⟩, o, _, ⟨ho, rfl⟩, x, _, ⟨hx, rfl⟩, n, _,
            ⟨hn, rfl⟩, paramType, _, ht, c, _, ⟨hc, rfl⟩, body, _, hb, i, _, ⟨hi, rfl⟩, letBody, _, hl,
            rfl, rfl⟩ := h
          obtain ⟨rs, rfl, pr⟩ := type_sound hr
          obtain ⟨ts, rfl, pt⟩ := type_sound ht
          obtain ⟨bs, rfl, pb⟩ := ih hb
          obtain ⟨ls, rfl, pl⟩ := ih hl
          exact ⟨_, by simp, .letrec hk pr hf ho hx hn pt hc pb hi pl⟩
      case kwAssert =>
          simp only [bind_eq_ok, skip_eq_ok, expect_eq_ok, pure_eq_ok, tail_push] at h
          obtain ⟨_, _, rfl, guard, _, hg, t, _, ⟨ht, rfl⟩, body, _, hb, rfl, rfl⟩ := h
          obtain ⟨gs, rfl, pg⟩ := ih hg
          obtain ⟨bs, rfl, pb⟩ := ih hb
          exact ⟨_, by simp, .assert hk pg ht pb⟩
      all_goals exact absurd h fail_ne_ok

/-! ## A phrase is read, whatever follows -/

/-- A type of the grammar is read to its end. -/
theorem type_complete {ts : List Token} {t : Ty} (h : TyPhrase ts t) {fuel : Nat}
    (hfuel : ts.length ≤ fuel) (s : TokenStream) : type fuel (s.prepend ts) = (.ok t, s) := by
  induction h generalizing fuel s with
  | int hk | bool hk =>
      obtain _ | fuel := fuel
      · exact absurd hfuel (Nat.not_succ_le_zero _)
      rw [prepend_cons, type, typeForm, bind_apply, peek_apply, head_push]
      simp only [hk]
      rfl
  | arrow ho hd ha hc hp ihd ihc =>
      simp only [List.length_cons, List.length_append, List.length_nil] at hfuel
      obtain _ | fuel := fuel
      · omega
      rw [prepend_cons, type, typeForm, bind_apply, peek_apply, head_push]
      simp only [ho, bind_eq_ok, skip_eq_ok, expect_eq_ok, pure_eq_ok, tail_push, prepend_append,
        prepend_cons, prepend_nil]
      exact ⟨(), _, rfl, _, _, ihd (by omega) _, _, _, ⟨ha, rfl⟩, _, _, ihc (by omega) _, _, _, ⟨hp, rfl⟩,
        rfl, rfl⟩

/-- An expression of the grammar is read to its end if its numbers are numerals. -/
theorem expr_complete {ts : List Token} {e : Expr} (h : ExprPhrase ts e)
    (hnumeral : ∀ t ∈ ts, t.kind = .number → Numeral.isNumeral t.text = true) {fuel : Nat}
    (hfuel : ts.length ≤ fuel) (s : TokenStream) : expr fuel (s.prepend ts) = (.ok e, s) := by
  induction h generalizing fuel s with
  | number hk =>
      obtain _ | fuel := fuel
      · exact absurd hfuel (Nat.not_succ_le_zero _)
      rw [prepend_cons, expr, exprForm, bind_apply, peek_apply, head_push]
      simp only [hk, bind_eq_ok, skip_eq_ok, number_eq_ok, tail_push]
      exact ⟨(), _, rfl, hnumeral _ List.mem_cons_self hk, trivial, rfl⟩
  | true hk | false hk | name hk =>
      obtain _ | fuel := fuel
      · exact absurd hfuel (Nat.not_succ_le_zero _)
      rw [prepend_cons, expr, exprForm, bind_apply, peek_apply, head_push]
      simp only [hk]
      rfl
  | negate hm ho he hc ih =>
      simp only [List.length_cons, List.length_append, List.length_nil] at hfuel
      simp only [List.forall_mem_cons, List.forall_mem_append] at hnumeral
      obtain _ | fuel := fuel
      · omega
      rw [prepend_cons, expr, exprForm, bind_apply, peek_apply, head_push]
      simp only [hm, bind_eq_ok, skip_eq_ok, expect_eq_ok, peek_eq_ok, tail_push, prepend_append,
        prepend_cons, prepend_nil]
      refine ⟨(), _, rfl, _, _, ⟨ho, rfl⟩, _, _, ih hnumeral.2.2.1 (by omega) _, _, _, ⟨rfl, rfl⟩, ?_⟩
      -- The token behind the operand closes the form, so it is no comma.
      rw [head_push, if_neg (by rw [hc]; decide)]
      simp only [bind_eq_ok, expect_eq_ok, pure_eq_ok]
      exact ⟨_, _, ⟨hc, rfl⟩, trivial, rfl⟩
  | subtract hm ho hl ha hr hc ihl ihr =>
      simp only [List.length_cons, List.length_append, List.length_nil] at hfuel
      simp only [List.forall_mem_cons, List.forall_mem_append] at hnumeral
      obtain _ | fuel := fuel
      · omega
      rw [prepend_cons, expr, exprForm, bind_apply, peek_apply, head_push]
      simp only [hm, bind_eq_ok, skip_eq_ok, expect_eq_ok, peek_eq_ok, tail_push, prepend_append,
        prepend_cons, prepend_nil]
      refine ⟨(), _, rfl, _, _, ⟨ho, rfl⟩, _, _, ihl hnumeral.2.2.1 (by omega) _, _, _, ⟨rfl, rfl⟩, ?_⟩
      rw [head_push, if_pos ha]
      simp only [bind_eq_ok, skip_eq_ok, expect_eq_ok, pure_eq_ok, tail_push]
      exact ⟨(), _, rfl, _, _, ihr hnumeral.2.2.2.2.1 (by omega) _, _, _, ⟨hc, rfl⟩, rfl, rfl⟩
  | isZero hk ho he hc ih =>
      simp only [List.length_cons, List.length_append, List.length_nil] at hfuel
      simp only [List.forall_mem_cons, List.forall_mem_append] at hnumeral
      obtain _ | fuel := fuel
      · omega
      rw [prepend_cons, expr, exprForm, bind_apply, peek_apply, head_push]
      simp only [hk, bind_eq_ok, skip_eq_ok, expect_eq_ok, pure_eq_ok, tail_push, prepend_append,
        prepend_cons, prepend_nil]
      exact ⟨(), _, rfl, _, _, ⟨ho, rfl⟩, _, _, ih hnumeral.2.2.1 (by omega) _, _, _, ⟨hc, rfl⟩, rfl, rfl⟩
  | ite hk hg ht hth hl hel ihg ihth ihel =>
      simp only [List.length_cons, List.length_append] at hfuel
      simp only [List.forall_mem_cons, List.forall_mem_append] at hnumeral
      obtain ⟨-, hgs, -, hts, -, hes⟩ := hnumeral
      obtain _ | fuel := fuel
      · omega
      rw [prepend_cons, expr, exprForm, bind_apply, peek_apply, head_push]
      simp only [hk, bind_eq_ok, skip_eq_ok, expect_eq_ok, pure_eq_ok, tail_push, prepend_append,
        prepend_cons]
      exact ⟨(), _, rfl, _, _, ihg hgs (by omega) _, _, _, ⟨ht, rfl⟩, _, _, ihth hts (by omega) _, _, _,
        ⟨hl, rfl⟩, _, _, ihel hes (by omega) _, rfl, rfl⟩
  | letIn hk hx hq hi hn hb ihi ihb =>
      simp only [List.length_cons, List.length_append] at hfuel
      simp only [List.forall_mem_cons, List.forall_mem_append] at hnumeral
      obtain ⟨-, -, -, his, -, hbs⟩ := hnumeral
      obtain _ | fuel := fuel
      · omega
      rw [prepend_cons, expr, exprForm, bind_apply, peek_apply, head_push]
      simp only [hk, bind_eq_ok, skip_eq_ok, expect_eq_ok, pure_eq_ok, tail_push, prepend_append,
        prepend_cons]
      exact ⟨(), _, rfl, _, _, ⟨hx, rfl⟩, _, _, ⟨hq, rfl⟩, _, _, ihi his (by omega) _, _, _, ⟨hn, rfl⟩, _, _,
        ihb hbs (by omega) _, rfl, rfl⟩
  | proc hk ho hx hn ht hc hb ihb =>
      simp only [List.length_cons, List.length_append] at hfuel
      simp only [List.forall_mem_cons, List.forall_mem_append] at hnumeral
      obtain ⟨-, -, -, -, -, -, hbs⟩ := hnumeral
      obtain _ | fuel := fuel
      · omega
      rw [prepend_cons, expr, exprForm, bind_apply, peek_apply, head_push]
      simp only [hk, bind_eq_ok, skip_eq_ok, expect_eq_ok, pure_eq_ok, tail_push, prepend_append,
        prepend_cons]
      exact ⟨(), _, rfl, _, _, ⟨ho, rfl⟩, _, _, ⟨hx, rfl⟩, _, _, ⟨hn, rfl⟩, _, _,
        type_complete ht (by omega) _, _, _, ⟨hc, rfl⟩, _, _, ihb hbs (by omega) _, rfl, rfl⟩
  | apply ho hf ha hc ihf iha =>
      simp only [List.length_cons, List.length_append, List.length_nil] at hfuel
      simp only [List.forall_mem_cons, List.forall_mem_append] at hnumeral
      obtain ⟨-, hfs, has, -⟩ := hnumeral
      obtain _ | fuel := fuel
      · omega
      rw [prepend_cons, expr, exprForm, bind_apply, peek_apply, head_push]
      simp only [ho, bind_eq_ok, skip_eq_ok, expect_eq_ok, pure_eq_ok, tail_push, prepend_append,
        prepend_cons, prepend_nil]
      exact ⟨(), _, rfl, _, _, ihf hfs (by omega) _, _, _, iha has (by omega) _, _, _, ⟨hc, rfl⟩, rfl, rfl⟩
  | letrec hk hr hf ho hx hn ht hc hb hi hl ihb ihl =>
      simp only [List.length_cons, List.length_append] at hfuel
      simp only [List.forall_mem_cons, List.forall_mem_append] at hnumeral
      obtain ⟨-, -, -, -, -, -, -, -, hbs, -, hls⟩ := hnumeral
      obtain _ | fuel := fuel
      · omega
      rw [prepend_cons, expr, exprForm, bind_apply, peek_apply, head_push]
      simp only [hk, bind_eq_ok, skip_eq_ok, expect_eq_ok, pure_eq_ok, tail_push, prepend_append,
        prepend_cons]
      exact ⟨(), _, rfl, _, _, type_complete hr (by omega) _, _, _, ⟨hf, rfl⟩, _, _, ⟨ho, rfl⟩, _, _,
        ⟨hx, rfl⟩, _, _, ⟨hn, rfl⟩, _, _, type_complete ht (by omega) _, _, _, ⟨hc, rfl⟩, _, _,
        ihb hbs (by omega) _, _, _, ⟨hi, rfl⟩, _, _, ihl hls (by omega) _, rfl, rfl⟩
  | assert hk hg ht hb ihg ihb =>
      simp only [List.length_cons, List.length_append] at hfuel
      simp only [List.forall_mem_cons, List.forall_mem_append] at hnumeral
      obtain ⟨-, hgs, -, hbs⟩ := hnumeral
      obtain _ | fuel := fuel
      · omega
      rw [prepend_cons, expr, exprForm, bind_apply, peek_apply, head_push]
      simp only [hk, bind_eq_ok, skip_eq_ok, expect_eq_ok, pure_eq_ok, tail_push, prepend_append,
        prepend_cons]
      exact ⟨(), _, rfl, _, _, ihg hgs (by omega) _, _, _, ⟨ht, rfl⟩, _, _, ihb hbs (by omega) _, rfl, rfl⟩

/-! ## Programs -/

theorem program_eq_ok {e : Expr} :
    program s = (.ok e, s') ↔ expr (s.pending.length + 1) s = (.ok e, s') ∧ s'.head.kind = .finish := by
  unfold program
  simp only [bind_eq_ok, peek_eq_ok]
  constructor
  · rintro ⟨d, r, hd, t, _, ⟨rfl, rfl⟩, h⟩
    split at h
    · rename_i hfinish
      obtain ⟨rfl, rfl⟩ := pure_eq_ok.1 h
      exact ⟨hd, hfinish⟩
    · exact absurd h fail_ne_ok
  · rintro ⟨he, hfinish⟩
    refine ⟨e, s', he, s'.head, s', ⟨rfl, rfl⟩, ?_⟩
    rw [if_pos hfinish]
    rfl

theorem orderly_program : Orderly program := by
  intro s
  refine ((orderly_expr _).bind fun e r => orderlyAt_peek_bind ?_) s
  split
  · exact orderly_pure e r
  · exact orderlyAt_fail rfl

/-- The tokens of a stream are a program exactly when they are a phrase. -/
theorem program_iff_phrase (hpending : ∀ t ∈ s.pending, t.kind ≠ .finish)
    (hnumeral : ∀ t ∈ s.pending, t.kind = .number → Numeral.isNumeral t.text = true) {e : Expr} :
    (program s).1 = .ok e ↔ ExprPhrase s.pending e := by
  constructor
  · intro h
    obtain ⟨hexpr, hfinish⟩ := program_eq_ok.1 (Prod.ext h rfl : program s = (.ok e, (program s).2))
    obtain ⟨ts, hs, hphrase⟩ := expr_sound hexpr
    -- The end of the input is at the front of the rest, and no pending token ends the input.
    have hrest : (program s).2.pending = [] := by
      cases hr : (program s).2.pending with
      | nil => rfl
      | cons t r =>
          have hhead : (program s).2.head = t := by simp [head, hr]
          refine absurd (hhead ▸ hfinish) (hpending t ?_)
          rw [hs, pending_prepend, hr]
          simp
    have hts : s.pending = ts := by
      rw [hs, pending_prepend, hrest, List.append_nil]
    exact hts ▸ hphrase
  · intro h
    have hs : s = prepend s.pending ⟨[], s.finish, s.finish_kind⟩ := by simp [prepend]
    have hexpr := expr_complete h hnumeral (Nat.le_succ _) ⟨[], s.finish, s.finish_kind⟩
    rw [← hs] at hexpr
    rw [program_eq_ok.2 ⟨hexpr, s.finish_kind⟩]

end Parser

/-! ## Lists of tokens -/

/-- A list with a token that ends the input makes a stream of the tokens before the first such. -/
theorem TokenStream.exists_ofTokens? {tokens : List Token} (h : ∃ t ∈ tokens, t.kind = .finish) :
    ∃ s, ofTokens? tokens = some s ∧ s.pending = tokens.takeWhile (·.kind ≠ .finish) := by
  induction tokens with
  | nil => simp at h
  | cons t ts ih =>
      by_cases ht : t.kind = .finish
      · exact ⟨⟨[], t, ht⟩, by simp [ofTokens?, ht], by simp [ht]⟩
      · have hts : ∃ u ∈ ts, u.kind = .finish := by simpa [ht] using h
        obtain ⟨s, hs, hpending⟩ := ih hts
        exact ⟨s.push t, by simp [ofTokens?, ht, hs], by simp [ht, hpending]⟩

theorem Token.takeWhile_kinds {tokens others : List Token}
    (h : others.map Token.kind = tokens.map Token.kind) :
    (others.takeWhile (·.kind ≠ .finish)).map Token.kind =
      (tokens.takeWhile (·.kind ≠ .finish)).map Token.kind := by
  have hmap : ∀ ts : List Token, (ts.takeWhile (·.kind ≠ .finish)).map Token.kind =
      (ts.map Token.kind).takeWhile (· ≠ .finish) := fun ts => by
    rw [List.takeWhile_map]
    rfl
  rw [hmap, hmap, h]

namespace Parser

/-- The parser accepts exactly its grammar. From a list with a token that ends the input, in which every
number token holds a numeral, it returns an expression exactly when the tokens before the first such
token are a phrase for it. No tokens are a phrase for two expressions, and tokens of the same kinds are
accepted together. The bound on the nesting changes nothing, for without one the calls of the parser
still determine what it does with every stream. So it always ends, with an expression or with an error at
a token. -/
theorem program_recognizes {tokens : List Token} (hfinish : ∃ t ∈ tokens, t.kind = .finish)
    (hnumeral : ∀ t ∈ tokens, t.kind = .number → Numeral.isNumeral t.text = true) :
    ∃ s, TokenStream.ofTokens? tokens = some s ∧
      (∀ e, (program s).1 = .ok e ↔ ExprPhrase (tokens.takeWhile (·.kind ≠ .finish)) e) ∧
      (∀ ts e d, ExprPhrase ts e → ExprPhrase ts d → e = d) ∧
      (∀ others, others.map Token.kind = tokens.map Token.kind →
        (∀ t ∈ others, t.kind = .number → Numeral.isNumeral t.text = true) →
        ∃ other, TokenStream.ofTokens? others = some other ∧
          ((∃ e, (program s).1 = .ok e) ↔ ∃ e, (program other).1 = .ok e)) ∧
      (∃ T P, Unbounded T P ∧ (∀ U Q, Unbounded U Q → U = T ∧ Q = P) ∧
        expr (s.pending.length + 1) s = P s) ∧
      ((∃ e, (program s).1 = .ok e) ∨ ∃ d t, (program s).1 = .error d ∧ d.found? = some t) := by
  -- Both the given list and one of the same kinds are read as phrases.
  have accepts : ∀ list : List Token, (∃ t ∈ list, t.kind = .finish) →
      (∀ t ∈ list, t.kind = .number → Numeral.isNumeral t.text = true) →
      ∃ s, TokenStream.ofTokens? list = some s ∧ s.pending = list.takeWhile (·.kind ≠ .finish) ∧
        ∀ e, (program s).1 = .ok e ↔ ExprPhrase (list.takeWhile (·.kind ≠ .finish)) e := by
    intro list hfinish hnumeral
    obtain ⟨s, hs, hpending⟩ := TokenStream.exists_ofTokens? hfinish
    refine ⟨s, hs, hpending, fun e => ?_⟩
    rw [← hpending]
    refine program_iff_phrase (fun t ht => ?_) fun t ht => hnumeral t ?_
    · rw [hpending] at ht
      simpa using List.mem_takeWhile_imp ht
    · rw [hpending] at ht
      exact (List.takeWhile_prefix _).subset ht
  obtain ⟨s, hs, hpending, hphrase⟩ := accepts tokens hfinish hnumeral
  refine ⟨s, hs, hphrase, fun _ _ _ => ExprPhrase.unique, ?_, ?_, ?_⟩
  · intro others hkinds hothers
    have hend : ∃ t ∈ others, t.kind = .finish := by
      have hmem : Token.Kind.finish ∈ others.map Token.kind := by
        rw [hkinds]
        exact List.mem_map.2 hfinish
      exact List.mem_map.1 hmem
    obtain ⟨other, hother, -, hother_phrase⟩ := accepts others hend hothers
    have hsame := Token.takeWhile_kinds hkinds
    refine ⟨other, hother, ?_⟩
    simp only [hphrase, hother_phrase]
    constructor
    · rintro ⟨e, he⟩
      exact he.of_kinds hsame
    · rintro ⟨e, he⟩
      exact he.of_kinds hsame.symm
  · exact ⟨wholeType, wholeExpr, unbounded_whole, fun U Q h => h.eq_whole, rfl⟩
  · cases hresult : (program s).1 with
    | ok e => exact .inl ⟨e, rfl⟩
    | error d =>
        rcases (orderly_program s).2 d hresult with hfound | ⟨t, ht, hkind, hbad, -⟩
        · exact .inr ⟨d, _, rfl, hfound⟩
        · rw [hpending] at ht
          have hgood := hnumeral t ((List.takeWhile_prefix _).subset ht) hkind
          rw [hgood] at hbad
          cases hbad

/-- The tokens of `-(x, 1)`, the end of the input, and a token behind it. -/
def differenceTokens : List Token :=
  [⟨.minus, "-", ⟨1, 1⟩⟩, ⟨.openParen, "(", ⟨1, 2⟩⟩, ⟨.name, "x", ⟨1, 3⟩⟩, ⟨.comma, ",", ⟨1, 4⟩⟩,
    ⟨.number, "1", ⟨1, 6⟩⟩, ⟨.closeParen, ")", ⟨1, 7⟩⟩, .endAt ⟨1, 8⟩, ⟨.kwThen, "then", ⟨1, 9⟩⟩]

theorem differenceTokens_recognized :
    ∃ s, TokenStream.ofTokens? differenceTokens = some s ∧
      (program s).1 = .ok (.subtract (.identifier "x") (.number "1")) := by
  have hfinish : ∃ t ∈ differenceTokens, t.kind = .finish :=
    ⟨.endAt ⟨1, 8⟩, by decide, rfl⟩
  have hnumeral : ∀ t ∈ differenceTokens, t.kind = .number → Numeral.isNumeral t.text = true := by
    decide
  obtain ⟨s, hs, hphrase, -⟩ := program_recognizes hfinish hnumeral
  refine ⟨s, hs, (hphrase _).2 ?_⟩
  exact .subtract (o := ⟨.openParen, "(", ⟨1, 2⟩⟩) rfl rfl (.name (x := ⟨.name, "x", ⟨1, 3⟩⟩) rfl) rfl
    (.number (n := ⟨.number, "1", ⟨1, 6⟩⟩) rfl) rfl

end Parser

end TypedLet
