import Mathlib.Computability.Language
import TypedLet.Proofs.Expr.Grammar

/-!
# The languages of the grammar

The kinds of the tokens of a phrase are a word, and the types and the expressions of the grammar are two
languages of such words. Both are prefix-free, and the first kind of a word tells what the rest of it is:
a product of the two languages with kinds in between. So the rules of the grammar become equations.
-/

namespace TypedLet

open Token (Kind)

/-! ## Prefix-free languages -/

/-- No word begins another one. -/
def PrefixFree {α : Type} (L : Language α) : Prop :=
  ∀ {u v : List α}, u ∈ L → v ∈ L → u <+: v → u = v

theorem PrefixFree.append_cancel {α : Type} {L : Language α} (h : PrefixFree L) {u v r s : List α}
    (hu : u ∈ L) (hv : v ∈ L) (heq : u ++ r = v ++ s) : u = v ∧ r = s := by
  have huv : u = v := by
    rcases List.prefix_or_prefix_of_prefix ⟨r, heq⟩ (List.prefix_append v s) with hpre | hpre
    · exact h hu hv hpre
    · exact (h hv hu hpre).symm
  subst huv
  exact ⟨rfl, List.append_cancel_left heq⟩

theorem prefixFree_singleton {α : Type} (w : List α) : PrefixFree ({w} : Language α) := by
  rintro u v rfl rfl -
  rfl

theorem mem_single_mul {k : Kind} {L : Language Kind} {w : List Kind} :
    w ∈ ({[k]} : Language Kind) * L ↔ ∃ v ∈ L, w = k :: v := by
  rw [Language.mem_mul]
  constructor
  · rintro ⟨_, rfl, v, hv, rfl⟩
    exact ⟨v, hv, rfl⟩
  · rintro ⟨v, hv, rfl⟩
    exact ⟨[k], rfl, v, hv, rfl⟩

theorem cons_mem_single_mul {k : Kind} {L : Language Kind} {v : List Kind} (hv : v ∈ L) :
    k :: v ∈ ({[k]} : Language Kind) * L :=
  mem_single_mul.2 ⟨v, hv, rfl⟩

theorem cons_mem_add_single_mul {j k l : Kind} {L : Language Kind} {w : List Kind} :
    k :: w ∈ ({[j]} : Language Kind) + {[l]} * L ↔ k = j ∧ w = [] ∨ k = l ∧ w ∈ L := by
  rw [Language.mem_add, mem_single_mul]
  constructor
  · rintro (h | ⟨v, hv, h⟩)
    · exact .inl (List.cons.inj h)
    · obtain ⟨rfl, rfl⟩ := List.cons.inj h
      exact .inr ⟨rfl, hv⟩
  · rintro (⟨rfl, rfl⟩ | ⟨rfl, hw⟩)
    · exact .inl rfl
    · exact .inr ⟨w, hw, rfl⟩

/-! ## Types and expressions -/

def tyKinds : Language Kind := {ks | ∃ ts t, TyPhrase ts t ∧ ts.map Token.kind = ks}

def exprKinds : Language Kind := {ks | ∃ ts e, ExprPhrase ts e ∧ ts.map Token.kind = ks}

theorem TyPhrase.map_kind_mem {ts : List Token} {t : Ty} (h : TyPhrase ts t) :
    ts.map Token.kind ∈ tyKinds :=
  ⟨ts, t, h, rfl⟩

theorem ExprPhrase.map_kind_mem {ts : List Token} {e : Expr} (h : ExprPhrase ts e) :
    ts.map Token.kind ∈ exprKinds :=
  ⟨ts, e, h, rfl⟩

theorem prefixFree_tyKinds : PrefixFree tyKinds := by
  rintro _ _ ⟨ts, t, ht, rfl⟩ ⟨us, u, hu, rfl⟩ ⟨more, hmore⟩
  obtain ⟨vs, rest, rfl, hvs, -⟩ := List.map_eq_append_iff.1 hmore.symm
  obtain ⟨v, hv⟩ := ht.of_kinds hvs
  obtain ⟨-, hrest⟩ := hv.prefix_free hu (List.append_nil _).symm
  rw [hrest, List.append_nil, hvs]

theorem prefixFree_exprKinds : PrefixFree exprKinds := by
  rintro _ _ ⟨ts, e, he, rfl⟩ ⟨us, d, hd, rfl⟩ ⟨more, hmore⟩
  obtain ⟨vs, rest, rfl, hvs, -⟩ := List.map_eq_append_iff.1 hmore.symm
  obtain ⟨v, hv⟩ := he.of_kinds hvs
  obtain ⟨-, hrest⟩ := hv.prefix_free hd (List.append_nil _).symm
  rw [hrest, List.append_nil, hvs]

/-! ## What follows the first kind -/

/-- What follows the first kind of a type. -/
def tyTail : Kind → Language Kind
  | .kwInt | .kwBool => 1
  | .openParen => tyKinds * ({[.arrow]} * (tyKinds * {[.closeParen]}))
  | _ => 0

/-- What follows the first kind of an expression. -/
def exprTail : Kind → Language Kind
  | .number | .kwTrue | .kwFalse | .name => 1
  | .minus => {[.openParen]} * (exprKinds *
      ({[.closeParen]} + {[.comma]} * (exprKinds * {[.closeParen]})))
  | .kwZero => {[.openParen]} * (exprKinds * {[.closeParen]})
  | .kwIf => exprKinds * ({[.kwThen]} * (exprKinds * ({[.kwElse]} * exprKinds)))
  | .kwLet => {[.name]} * ({[.equals]} * (exprKinds * ({[.kwIn]} * exprKinds)))
  | .kwProc => {[.openParen]} * ({[.name]} * ({[.colon]} * (tyKinds *
      ({[.closeParen]} * exprKinds))))
  | .openParen => exprKinds * (exprKinds * {[.closeParen]})
  | .kwLetrec => tyKinds * ({[.name]} * ({[.openParen]} * ({[.name]} * ({[.colon]} * (tyKinds *
      ({[.closeParen]} * (exprKinds * ({[.kwIn]} * exprKinds))))))))
  | .kwAssert => exprKinds * ({[.kwThen]} * exprKinds)
  | _ => 0

/-- A token of the kind, for words that are made up. -/
def Token.ofKind (k : Kind) : Token := ⟨k, "", .start⟩

theorem cons_mem_tyKinds_iff {k : Kind} {w : List Kind} : k :: w ∈ tyKinds ↔ w ∈ tyTail k := by
  constructor
  · rintro ⟨ts, t, h, hks⟩
    cases h with
    | int hk | bool hk =>
        obtain ⟨rfl, rfl⟩ := List.cons.inj hks
        rw [hk]
        exact Language.nil_mem_one
    | arrow ho hd ha hc hp =>
        obtain ⟨rfl, rfl⟩ := List.cons.inj hks
        simp only [List.map_append, List.map_cons, List.map_nil, ho, ha, hp]
        exact Language.append_mem_mul hd.map_kind_mem
          (cons_mem_single_mul (Language.append_mem_mul hc.map_kind_mem rfl))
  · intro hw
    cases k
    case kwInt =>
        cases hw
        exact (TyPhrase.int (k := .ofKind .kwInt) rfl).map_kind_mem
    case kwBool =>
        cases hw
        exact (TyPhrase.bool (k := .ofKind .kwBool) rfl).map_kind_mem
    case openParen =>
        obtain ⟨_, ⟨ds, d, hd, rfl⟩, _, harrow, rfl⟩ := Language.mem_mul.1 hw
        obtain ⟨_, hcodomain, rfl⟩ := mem_single_mul.1 harrow
        obtain ⟨_, ⟨cs, c, hc, rfl⟩, _, rfl, rfl⟩ := Language.mem_mul.1 hcodomain
        simpa [Token.ofKind] using (TyPhrase.arrow (o := .ofKind .openParen) (a := .ofKind .arrow)
          (c := .ofKind .closeParen) rfl hd rfl hc rfl).map_kind_mem
    all_goals exact absurd hw (Language.notMem_zero w)

/-- The kinds of an expression behind its first one are a word of the language for that kind. -/
theorem ExprPhrase.map_kind_mem_exprTail {t : Token} {ts : List Token} {e : Expr}
    (h : ExprPhrase (t :: ts) e) : ts.map Token.kind ∈ exprTail t.kind := by
  cases h with
  | number hk | true hk | false hk | name hk =>
      rw [hk]
      exact Language.nil_mem_one
  | negate hm ho he hc =>
      simp only [List.map_cons, List.map_append, List.map_nil, hm, ho, hc]
      exact cons_mem_single_mul (Language.append_mem_mul he.map_kind_mem (.inl rfl))
  | subtract hm ho hl ha hr hc =>
      simp only [List.map_cons, List.map_append, List.map_nil, hm, ho, ha, hc]
      exact cons_mem_single_mul (Language.append_mem_mul hl.map_kind_mem
        (.inr (cons_mem_single_mul (Language.append_mem_mul hr.map_kind_mem rfl))))
  | isZero hk ho he hc =>
      simp only [List.map_cons, List.map_append, List.map_nil, hk, ho, hc]
      exact cons_mem_single_mul (Language.append_mem_mul he.map_kind_mem rfl)
  | ite hk hg ht hth hl hel =>
      simp only [List.map_cons, List.map_append, hk, ht, hl]
      exact Language.append_mem_mul hg.map_kind_mem (cons_mem_single_mul
        (Language.append_mem_mul hth.map_kind_mem (cons_mem_single_mul hel.map_kind_mem)))
  | letIn hk hx hq hi hn hb =>
      simp only [List.map_cons, List.map_append, hk, hx, hq, hn]
      exact cons_mem_single_mul (cons_mem_single_mul (Language.append_mem_mul hi.map_kind_mem
        (cons_mem_single_mul hb.map_kind_mem)))
  | proc hk ho hx hn ht hc hb =>
      simp only [List.map_cons, List.map_append, hk, ho, hx, hn, hc]
      exact cons_mem_single_mul (cons_mem_single_mul (cons_mem_single_mul
        (Language.append_mem_mul ht.map_kind_mem (cons_mem_single_mul hb.map_kind_mem))))
  | apply ho hf ha hc =>
      simp only [List.map_append, List.map_cons, List.map_nil, ho, hc]
      exact Language.append_mem_mul hf.map_kind_mem (Language.append_mem_mul ha.map_kind_mem rfl)
  | letrec hk hr hf ho hx hn ht hc hb hi hl =>
      simp only [List.map_cons, List.map_append, hk, hf, ho, hx, hn, hc, hi]
      exact Language.append_mem_mul hr.map_kind_mem (cons_mem_single_mul (cons_mem_single_mul
        (cons_mem_single_mul (cons_mem_single_mul (Language.append_mem_mul ht.map_kind_mem
          (cons_mem_single_mul (Language.append_mem_mul hb.map_kind_mem
            (cons_mem_single_mul hl.map_kind_mem))))))))
  | assert hk hg ht hb =>
      simp only [List.map_cons, List.map_append, hk, ht]
      exact Language.append_mem_mul hg.map_kind_mem (cons_mem_single_mul hb.map_kind_mem)

theorem cons_mem_exprKinds_of_mem_exprTail {k : Kind} {w : List Kind} (h : w ∈ exprTail k) :
    k :: w ∈ exprKinds := by
  cases k
  case number =>
      cases h
      exact (ExprPhrase.number (n := .ofKind .number) rfl).map_kind_mem
  case kwTrue =>
      cases h
      exact (ExprPhrase.true (k := .ofKind .kwTrue) rfl).map_kind_mem
  case kwFalse =>
      cases h
      exact (ExprPhrase.false (k := .ofKind .kwFalse) rfl).map_kind_mem
  case name =>
      cases h
      exact (ExprPhrase.name (x := .ofKind .name) rfl).map_kind_mem
  case minus =>
      obtain ⟨_, hoperand, rfl⟩ := mem_single_mul.1 h
      obtain ⟨_, ⟨ls, l, hl, rfl⟩, _, hend | hcomma, rfl⟩ := Language.mem_mul.1 hoperand
      · cases hend
        simpa [Token.ofKind] using (ExprPhrase.negate (m := .ofKind .minus) (o := .ofKind .openParen)
          (c := .ofKind .closeParen) rfl rfl hl rfl).map_kind_mem
      · obtain ⟨_, hright, rfl⟩ := mem_single_mul.1 hcomma
        obtain ⟨_, ⟨rs, r, hr, rfl⟩, _, rfl, rfl⟩ := Language.mem_mul.1 hright
        simpa [Token.ofKind] using (ExprPhrase.subtract (m := .ofKind .minus) (o := .ofKind .openParen)
          (a := .ofKind .comma) (c := .ofKind .closeParen) rfl rfl hl rfl hr rfl).map_kind_mem
  case kwZero =>
      obtain ⟨_, hoperand, rfl⟩ := mem_single_mul.1 h
      obtain ⟨_, ⟨es, e, he, rfl⟩, _, rfl, rfl⟩ := Language.mem_mul.1 hoperand
      simpa [Token.ofKind] using (ExprPhrase.isZero (k := .ofKind .kwZero) (o := .ofKind .openParen)
        (c := .ofKind .closeParen) rfl rfl he rfl).map_kind_mem
  case kwIf =>
      obtain ⟨_, ⟨gs, g, hg, rfl⟩, _, hthen, rfl⟩ := Language.mem_mul.1 h
      obtain ⟨_, hbranch, rfl⟩ := mem_single_mul.1 hthen
      obtain ⟨_, ⟨ts, t, ht, rfl⟩, _, helse, rfl⟩ := Language.mem_mul.1 hbranch
      obtain ⟨_, ⟨es, e, he, rfl⟩, rfl⟩ := mem_single_mul.1 helse
      simpa [Token.ofKind] using (ExprPhrase.ite (k := .ofKind .kwIf) (t := .ofKind .kwThen)
        (l := .ofKind .kwElse) rfl hg rfl ht rfl he).map_kind_mem
  case kwLet =>
      obtain ⟨_, hequals, rfl⟩ := mem_single_mul.1 h
      obtain ⟨_, hinit, rfl⟩ := mem_single_mul.1 hequals
      obtain ⟨_, ⟨is, i, hi, rfl⟩, _, hin, rfl⟩ := Language.mem_mul.1 hinit
      obtain ⟨_, ⟨bs, b, hb, rfl⟩, rfl⟩ := mem_single_mul.1 hin
      simpa [Token.ofKind] using (ExprPhrase.letIn (k := .ofKind .kwLet) (x := .ofKind .name)
        (q := .ofKind .equals) (i := .ofKind .kwIn) rfl rfl rfl hi rfl hb).map_kind_mem
  case kwProc =>
      obtain ⟨_, hname, rfl⟩ := mem_single_mul.1 h
      obtain ⟨_, hcolon, rfl⟩ := mem_single_mul.1 hname
      obtain ⟨_, htype, rfl⟩ := mem_single_mul.1 hcolon
      obtain ⟨_, ⟨ts, t, ht, rfl⟩, _, hclose, rfl⟩ := Language.mem_mul.1 htype
      obtain ⟨_, ⟨bs, b, hb, rfl⟩, rfl⟩ := mem_single_mul.1 hclose
      simpa [Token.ofKind] using (ExprPhrase.proc (k := .ofKind .kwProc) (o := .ofKind .openParen)
        (x := .ofKind .name) (n := .ofKind .colon) (c := .ofKind .closeParen) rfl rfl rfl rfl ht rfl
        hb).map_kind_mem
  case openParen =>
      obtain ⟨_, ⟨fs, f, hf, rfl⟩, _, harg, rfl⟩ := Language.mem_mul.1 h
      obtain ⟨_, ⟨as, a, ha, rfl⟩, _, rfl, rfl⟩ := Language.mem_mul.1 harg
      simpa [Token.ofKind] using (ExprPhrase.apply (o := .ofKind .openParen) (c := .ofKind .closeParen) rfl
        hf ha rfl).map_kind_mem
  case kwLetrec =>
      obtain ⟨_, ⟨rs, r, hr, rfl⟩, _, hname, rfl⟩ := Language.mem_mul.1 h
      obtain ⟨_, hopen, rfl⟩ := mem_single_mul.1 hname
      obtain ⟨_, hparam, rfl⟩ := mem_single_mul.1 hopen
      obtain ⟨_, hcolon, rfl⟩ := mem_single_mul.1 hparam
      obtain ⟨_, htype, rfl⟩ := mem_single_mul.1 hcolon
      obtain ⟨_, ⟨ts, t, ht, rfl⟩, _, hclose, rfl⟩ := Language.mem_mul.1 htype
      obtain ⟨_, hbody, rfl⟩ := mem_single_mul.1 hclose
      obtain ⟨_, ⟨bs, b, hb, rfl⟩, _, hin, rfl⟩ := Language.mem_mul.1 hbody
      obtain ⟨_, ⟨ls, l, hl, rfl⟩, rfl⟩ := mem_single_mul.1 hin
      simpa [Token.ofKind] using (ExprPhrase.letrec (k := .ofKind .kwLetrec) (f := .ofKind .name)
        (o := .ofKind .openParen) (x := .ofKind .name) (n := .ofKind .colon) (c := .ofKind .closeParen)
        (i := .ofKind .kwIn) rfl hr rfl rfl rfl rfl ht rfl hb rfl hl).map_kind_mem
  case kwAssert =>
      obtain ⟨_, ⟨gs, g, hg, rfl⟩, _, hthen, rfl⟩ := Language.mem_mul.1 h
      obtain ⟨_, ⟨bs, b, hb, rfl⟩, rfl⟩ := mem_single_mul.1 hthen
      simpa [Token.ofKind] using (ExprPhrase.assert (k := .ofKind .kwAssert) (t := .ofKind .kwThen) rfl hg
        rfl hb).map_kind_mem
  all_goals exact absurd h (Language.notMem_zero w)

theorem cons_mem_exprKinds_iff {k : Kind} {w : List Kind} : k :: w ∈ exprKinds ↔ w ∈ exprTail k := by
  constructor
  · rintro ⟨_ | ⟨t, ts⟩, e, h, hks⟩
    · cases hks
    · obtain ⟨rfl, rfl⟩ := List.cons.inj hks
      exact h.map_kind_mem_exprTail
  · exact cons_mem_exprKinds_of_mem_exprTail

end TypedLet
