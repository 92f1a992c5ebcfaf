import TypedLet.Proofs.Expr.Reading

/-!
# What a parser looks at

A parser looks at the tokens that it takes and at the one that it stops at, and at no other. So whatever
follows that token, the parser does the same.
-/

namespace TypedLet

theorem TokenStream.head_prepend_congr {r s : TokenStream} (h : r.head = s.head) (ts : List Token) :
    (r.prepend ts).head = (s.prepend ts).head := by
  cases ts with
  | nil => exact h
  | cons t ts => rfl

namespace Parser

open TokenStream

variable {α β : Type} {p : Parser α} {s : TokenStream}

/-- From this stream the parser takes tokens off the front, and from any stream that starts with them and
goes on with the same token it takes them, too, for the same result. -/
def LocalAt (p : Parser α) (s : TokenStream) : Prop :=
  ∃ ts, s = (p s).2.prepend ts ∧
    ∀ r : TokenStream, r.head = (p s).2.head → p (r.prepend ts) = ((p s).1, r)

def Local (p : Parser α) : Prop := ∀ s, LocalAt p s

theorem local_pure (a : α) : Local (Pure.pure a : Parser α) := fun _ => ⟨[], rfl, fun _ _ => rfl⟩

theorem local_fail (e : ParseError) : Local (fail e : Parser α) := fun _ => ⟨[], rfl, fun _ _ => rfl⟩

theorem local_number (text : String) : Local (number text) := by
  unfold number
  cases Numeral.literal (.text text) with
  | error e => exact local_fail _
  | ok text => exact local_pure _

theorem local_expect (place : Expectation) : Local (expect place) := by
  intro s
  by_cases hkind : s.head.kind = place.kind
  · rw [← push_head_tail (s := s) (hkind ▸ place.kind_ne_finish)]
    unfold LocalAt
    rw [expect_push hkind]
    exact ⟨[s.head], rfl, fun r _ => expect_push hkind⟩
  · unfold LocalAt
    rw [expect_apply, if_neg hkind]
    refine ⟨[], rfl, fun r hr => ?_⟩
    rw [prepend_nil, expect_apply, hr, if_neg hkind]

theorem localAt_peek_bind {f : Token → Parser β} (h : LocalAt (f s.head) s) :
    LocalAt (peek >>= f) s := by
  obtain ⟨ts, hs, hlocal⟩ := h
  refine ⟨ts, hs, fun r hr => ?_⟩
  have hhead : (r.prepend ts).head = s.head := by
    rw [hs, head_prepend_congr hr]
    rfl
  rw [bind_apply, peek_apply, hhead]
  exact hlocal r hr

theorem LocalAt.bind {f : α → Parser β} (hp : LocalAt p s) (hf : ∀ a, Local (f a)) :
    LocalAt (p >>= f) s := by
  obtain ⟨ts, hs, hlocal⟩ := hp
  unfold LocalAt
  rw [bind_apply]
  rcases hread : p s with ⟨e | a, rest⟩
  · rw [hread] at hs hlocal
    refine ⟨ts, hs, fun r hr => ?_⟩
    rw [bind_apply, hlocal r hr]
  · rw [hread] at hs hlocal
    obtain ⟨us, hrest, hnext⟩ := hf a rest
    refine ⟨ts ++ us, by rw [prepend_append, ← hrest, hs], fun r hr => ?_⟩
    -- The second reading puts its own tokens back, so the first one still stops at the same token.
    have hhead : (r.prepend us).head = rest.head := by
      rw [hrest, head_prepend_congr hr]
    rw [prepend_append, bind_apply, hlocal _ hhead]
    exact hnext r hr

theorem Local.bind {f : α → Parser β} (hp : Local p) (hf : ∀ a, Local (f a)) : Local (p >>= f) :=
  fun s => (hp s).bind hf

/-- A token is only taken where it does not end the input. -/
theorem localAt_skip_bind {f : Unit → Parser β} (hfront : s.head.kind ≠ .finish) (hf : Local (f ())) :
    LocalAt (skip >>= f) s := by
  obtain ⟨t, rest, rfl⟩ := exists_push hfront
  obtain ⟨ts, hrest, hlocal⟩ := hf rest
  exact ⟨t :: ts, congrArg (push t) hrest, hlocal⟩

/-! ## The forms -/

theorem Local.typeForm {inner : Parser Ty} (hi : Local inner) : Local (typeForm inner) := by
  intro s
  refine localAt_peek_bind ?_
  cases hkind : s.head.kind
  case kwInt | kwBool => exact localAt_skip_bind (by simp [hkind]) (local_pure _)
  case openParen =>
      refine localAt_skip_bind (by simp [hkind]) ?_
      exact hi.bind fun _ => (local_expect _).bind fun _ => hi.bind fun _ =>
        (local_expect _).bind fun _ => local_pure _
  all_goals exact local_fail _ s

theorem local_type (fuel : Nat) : Local (type fuel) := by
  induction fuel with
  | zero => exact fun s => localAt_peek_bind (local_fail _ s)
  | succ fuel ih => exact ih.typeForm

theorem Local.exprForm {type : Parser Ty} {inner : Parser Expr} (ht : Local type) (hi : Local inner) :
    Local (exprForm type inner) := by
  intro s
  refine localAt_peek_bind ?_
  cases hkind : s.head.kind
  case number => exact localAt_skip_bind (by simp [hkind]) (local_number _)
  case kwTrue | kwFalse | name => exact localAt_skip_bind (by simp [hkind]) (local_pure _)
  case minus =>
      refine localAt_skip_bind (by simp [hkind]) ?_
      refine (local_expect _).bind fun _ => hi.bind fun _ r => localAt_peek_bind ?_
      by_cases hcomma : r.head.kind = .comma
      · rw [if_pos hcomma]
        exact localAt_skip_bind (by simp [hcomma]) (hi.bind fun _ => (local_expect _).bind fun _ =>
          local_pure _)
      · rw [if_neg hcomma]
        exact (local_expect _).bind (fun _ => local_pure _) r
  case kwZero =>
      refine localAt_skip_bind (by simp [hkind]) ?_
      exact (local_expect _).bind fun _ => hi.bind fun _ => (local_expect _).bind fun _ => local_pure _
  case kwIf =>
      refine localAt_skip_bind (by simp [hkind]) ?_
      exact hi.bind fun _ => (local_expect _).bind fun _ => hi.bind fun _ =>
        (local_expect _).bind fun _ => hi.bind fun _ => local_pure _
  case kwLet =>
      refine localAt_skip_bind (by simp [hkind]) ?_
      exact (local_expect _).bind fun _ => (local_expect _).bind fun _ => hi.bind fun _ =>
        (local_expect _).bind fun _ => hi.bind fun _ => local_pure _
  case kwProc =>
      refine localAt_skip_bind (by simp [hkind]) ?_
      exact (local_expect _).bind fun _ => (local_expect _).bind fun _ => (local_expect _).bind fun _ =>
        ht.bind fun _ => (local_expect _).bind fun _ => hi.bind fun _ => local_pure _
  case openParen =>
      refine localAt_skip_bind (by simp [hkind]) ?_
      exact hi.bind fun _ => hi.bind fun _ => (local_expect _).bind fun _ => local_pure _
  case kwLetrec =>
      refine localAt_skip_bind (by simp [hkind]) ?_
      exact ht.bind fun _ => (local_expect _).bind fun _ => (local_expect _).bind fun _ =>
        (local_expect _).bind fun _ => (local_expect _).bind fun _ => ht.bind fun _ =>
        (local_expect _).bind fun _ => hi.bind fun _ => (local_expect _).bind fun _ => hi.bind fun _ =>
        local_pure _
  case kwAssert =>
      refine localAt_skip_bind (by simp [hkind]) ?_
      exact hi.bind fun _ => (local_expect _).bind fun _ => hi.bind fun _ => local_pure _
  all_goals exact local_fail _ s

theorem local_expr (fuel : Nat) : Local (expr fuel) := by
  induction fuel with
  | zero => exact fun s => localAt_peek_bind (local_fail _ s)
  | succ fuel ih => exact (local_type fuel).exprForm ih

/-- Reads a program with a given bound on the nesting. -/
def programUpTo (fuel : Nat) : Parser Expr := do
  let e ← expr fuel
  let front ← peek
  if front.kind = .finish then return e else fail (.trailing front)

theorem program_eq_programUpTo {fuel : Nat} (h : s.pending.length < fuel) :
    program s = programUpTo fuel s :=
  (expr_agreesBelow (Nat.le_refl _) h).bind (orderly_expr _) (fun _ => agreesBelow_refl _ _) s
    (Nat.lt_succ_self _)

theorem local_program : Local program := by
  intro s
  -- The bound on the nesting depends on the stream, so both streams are read with one that is large enough.
  have hupTo : ∀ fuel, Local (programUpTo fuel) := fun fuel => (local_expr fuel).bind fun e r => by
    refine localAt_peek_bind ?_
    by_cases hfinish : r.head.kind = .finish
    · rw [if_pos hfinish]
      exact local_pure e r
    · rw [if_neg hfinish]
      exact local_fail _ r
  have hprogram : ∀ fuel, s.pending.length < fuel → ∃ ts, s = (program s).2.prepend ts ∧
      ∀ r : TokenStream, r.head = (program s).2.head →
        programUpTo fuel (r.prepend ts) = ((program s).1, r) := fun fuel hfuel => by
    rw [program_eq_programUpTo hfuel]
    exact hupTo fuel s
  obtain ⟨ts, hs, -⟩ := hprogram _ (Nat.lt_succ_self _)
  refine ⟨ts, hs, fun r hr => ?_⟩
  have hshort : s.pending.length < s.pending.length + (r.prepend ts).pending.length + 1 := by omega
  have hshort' : (r.prepend ts).pending.length < s.pending.length + (r.prepend ts).pending.length + 1 := by
    omega
  obtain ⟨us, hus, hlocal⟩ := hprogram _ hshort
  obtain rfl : ts = us := by
    have hpending := congrArg pending (hs.symm.trans hus)
    rw [pending_prepend, pending_prepend] at hpending
    exact List.append_cancel_right hpending
  rw [program_eq_programUpTo hshort', hlocal r hr]

end Parser

end TypedLet
