import TypedLet.Proofs.Expr.Grammar
import TypedLet.Proofs.Expr.Parts

/-!
# The tokens in front of the parts

A number and the keyword of an `assert` stand nowhere but in front of a phrase. So what is read off these
tokens, from the first to the last, is what is read off the parts of the tree, each one in front of its
own parts.
-/

namespace TypedLet

section Fronts

variable {β : Type} {f : Token → Option β}
  (hf : ∀ t : Token, t.kind ≠ .number → t.kind ≠ .kwAssert → f t = none)

include hf

theorem TyPhrase.filterMap_eq_nil {ts : List Token} {t : Ty} (h : TyPhrase ts t) :
    ts.filterMap f = [] := by
  induction h with
  | int hk | bool hk => simp [hf, hk]
  | arrow ho hd ha hc hp ihd ihc => simp [hf, ho, ha, hp, ihd, ihc]

variable {g : Expr → Option β}

/-- If `f` reads nothing off tokens of other kinds, and off the token in front of a phrase what `g` reads
off its tree, then the two read the same off the tokens of a phrase and off the parts of its tree. -/
theorem ExprPhrase.filterMap_parts
    (hfront : ∀ {t : Token} {us : List Token} {e : Expr}, ExprPhrase (t :: us) e → f t = g e)
    {ts : List Token} {e : Expr} (h : ExprPhrase ts e) :
    e.parts.filterMap g = ts.filterMap f := by
  induction h with
  | number hk => simp only [Expr.parts, List.filterMap_cons, List.filterMap_nil, hfront (.number hk)]
  | true hk => simp only [Expr.parts, List.filterMap_cons, List.filterMap_nil, hfront (.true hk)]
  | false hk => simp only [Expr.parts, List.filterMap_cons, List.filterMap_nil, hfront (.false hk)]
  | name hk => simp only [Expr.parts, List.filterMap_cons, List.filterMap_nil, hfront (.name hk)]
  | negate hm ho he hc ih =>
      have hk := hfront (.negate hm ho he hc)
      simp [Expr.parts, List.filterMap_cons, hk, hf, ho, hc, ih]
  | subtract hm ho hl ha hr hc ihl ihr =>
      have hk := hfront (.subtract hm ho hl ha hr hc)
      simp [Expr.parts, List.filterMap_cons, hk, hf, ho, ha, hc, ihl, ihr]
  | isZero hk ho he hc ih =>
      have hk := hfront (.isZero hk ho he hc)
      simp [Expr.parts, List.filterMap_cons, hk, hf, ho, hc, ih]
  | ite hk hg ht hth hl hel ihg ihth ihel =>
      have hk := hfront (.ite hk hg ht hth hl hel)
      simp [Expr.parts, List.filterMap_cons, hk, hf, ht, hl, ihg, ihth, ihel]
  | letIn hk hx hq hi hn hb ihi ihb =>
      have hk := hfront (.letIn hk hx hq hi hn hb)
      simp [Expr.parts, List.filterMap_cons, hk, hf, hx, hq, hn, ihi, ihb]
  | proc hk ho hx hn ht hc hb ihb =>
      have hk := hfront (.proc hk ho hx hn ht hc hb)
      simp [Expr.parts, List.filterMap_cons, hk, hf, ho, hx, hn, hc, ht.filterMap_eq_nil hf, ihb]
  | apply ho hfn harg hc ihf iha =>
      have hk := hfront (.apply ho hfn harg hc)
      simp [Expr.parts, List.filterMap_cons, hk, hf, hc, ihf, iha]
  | letrec hk hr hfn ho hx hn ht hc hb hi hl ihb ihl =>
      have hk := hfront (.letrec hk hr hfn ho hx hn ht hc hb hi hl)
      simp [Expr.parts, List.filterMap_cons, hk, hf, hfn, ho, hx, hn, hc, hi,
        hr.filterMap_eq_nil hf, ht.filterMap_eq_nil hf, ihb, ihl]
  | assert hk hg ht hb ihg ihb =>
      have hk := hfront (.assert hk hg ht hb)
      simp [Expr.parts, List.filterMap_cons, hk, hf, ht, ihg, ihb]

end Fronts

/-! ## Asserts and literals -/

/-- The line that an `assert` holds. -/
def Expr.assertLine? : Expr → Option (Option Int)
  | assert _ _ line => some line
  | _ => none

/-- The text of a number literal. -/
def Expr.literal? : Expr → Option String
  | number text => some text
  | _ => none

section Phrase

variable {ts : List Token} {e : Expr} (h : ExprPhrase ts e)

include h

/-- The `assert`s of the tree hold the lines of their keywords, in order. -/
theorem ExprPhrase.assertLines :
    e.parts.filterMap Expr.assertLine? =
      (ts.filter (·.kind = .kwAssert)).map fun t => some t.position.line := by
  rw [← List.filterMap_eq_map, List.filterMap_filter]
  refine h.filterMap_parts (fun t _ ht => by simp [ht]) fun hphrase => ?_
  cases hphrase <;> simp_all [Expr.assertLine?]

/-- The literals of the tree are the numbers among the tokens, in order. -/
theorem ExprPhrase.literals :
    e.parts.filterMap Expr.literal? = (ts.filter (·.kind = .number)).map (·.text) := by
  rw [← List.filterMap_eq_map, List.filterMap_filter]
  refine h.filterMap_parts (fun t ht _ => by simp [ht]) fun hphrase => ?_
  cases hphrase <;> simp_all [Expr.literal?]

end Phrase

end TypedLet
