import TypedLet.Expr
import TypedLet.Token

/-!
# The grammar

A phrase is a sequence of tokens that the grammar derives, told together with the tree that it stands
for. There is one rule for each alternative of the grammar

    expr    = NUMBER | true | false | NAME
            | - ( expr ) | - ( expr , expr ) | zero? ( expr )
            | if expr then expr else expr
            | let NAME = expr in expr
            | proc ( NAME : type ) expr
            | ( expr expr )
            | letrec type NAME ( NAME : type ) expr in expr
            | assert expr then expr
    type    = int | bool | ( type -> type )

A phrase shows its own end: no phrase is the beginning of another, so a phrase followed by anything
stands for one tree, and two phrases that follow one another can be told apart.
-/

namespace TypedLet

inductive TyPhrase : List Token → Ty → Prop where
  | int {k : Token} : k.kind = .kwInt → TyPhrase [k] .int
  | bool {k : Token} : k.kind = .kwBool → TyPhrase [k] .bool
  | arrow {o a c : Token} {ds cs : List Token} {domain codomain : Ty} :
      o.kind = .openParen → TyPhrase ds domain → a.kind = .arrow → TyPhrase cs codomain →
      c.kind = .closeParen →
      TyPhrase (o :: (ds ++ a :: (cs ++ [c]))) (.arrow domain codomain)

/-- The tokens are an expression of the grammar. The tree of an `assert` holds the line of its
keyword. -/
inductive ExprPhrase : List Token → Expr → Prop where
  | number {n : Token} : n.kind = .number → ExprPhrase [n] (.number n.text)
  | true {k : Token} : k.kind = .kwTrue → ExprPhrase [k] (.bool true)
  | false {k : Token} : k.kind = .kwFalse → ExprPhrase [k] (.bool false)
  | name {x : Token} : x.kind = .name → ExprPhrase [x] (.identifier x.text)
  | negate {m o c : Token} {es : List Token} {operand : Expr} :
      m.kind = .minus → o.kind = .openParen → ExprPhrase es operand → c.kind = .closeParen →
      ExprPhrase (m :: o :: (es ++ [c])) (.negate operand)
  | subtract {m o a c : Token} {ls rs : List Token} {left right : Expr} :
      m.kind = .minus → o.kind = .openParen → ExprPhrase ls left → a.kind = .comma →
      ExprPhrase rs right → c.kind = .closeParen →
      ExprPhrase (m :: o :: (ls ++ a :: (rs ++ [c]))) (.subtract left right)
  | isZero {k o c : Token} {es : List Token} {operand : Expr} :
      k.kind = .kwZero → o.kind = .openParen → ExprPhrase es operand → c.kind = .closeParen →
      ExprPhrase (k :: o :: (es ++ [c])) (.isZero operand)
  | ite {k t l : Token} {gs ts es : List Token} {guard thenBranch elseBranch : Expr} :
      k.kind = .kwIf → ExprPhrase gs guard → t.kind = .kwThen → ExprPhrase ts thenBranch →
      l.kind = .kwElse → ExprPhrase es elseBranch →
      ExprPhrase (k :: (gs ++ t :: (ts ++ l :: es))) (.ite guard thenBranch elseBranch)
  | letIn {k x q i : Token} {is bs : List Token} {init body : Expr} :
      k.kind = .kwLet → x.kind = .name → q.kind = .equals → ExprPhrase is init →
      i.kind = .kwIn → ExprPhrase bs body →
      ExprPhrase (k :: x :: q :: (is ++ i :: bs)) (.letIn x.text init body)
  | proc {k o x n c : Token} {ts bs : List Token} {paramType : Ty} {body : Expr} :
      k.kind = .kwProc → o.kind = .openParen → x.kind = .name → n.kind = .colon →
      TyPhrase ts paramType → c.kind = .closeParen → ExprPhrase bs body →
      ExprPhrase (k :: o :: x :: n :: (ts ++ c :: bs)) (.proc x.text paramType body)
  | apply {o c : Token} {fs as : List Token} {fn arg : Expr} :
      o.kind = .openParen → ExprPhrase fs fn → ExprPhrase as arg → c.kind = .closeParen →
      ExprPhrase (o :: (fs ++ (as ++ [c]))) (.apply fn arg)
  | letrec {k f o x n c i : Token} {rs ts bs ls : List Token} {returnType paramType : Ty}
      {body letBody : Expr} :
      k.kind = .kwLetrec → TyPhrase rs returnType → f.kind = .name → o.kind = .openParen →
      x.kind = .name → n.kind = .colon → TyPhrase ts paramType → c.kind = .closeParen →
      ExprPhrase bs body → i.kind = .kwIn → ExprPhrase ls letBody →
      ExprPhrase (k :: (rs ++ f :: o :: x :: n :: (ts ++ c :: (bs ++ i :: ls))))
        (.letrec returnType f.text x.text paramType body letBody)
  | assert {k t : Token} {gs bs : List Token} {guard body : Expr} :
      k.kind = .kwAssert → ExprPhrase gs guard → t.kind = .kwThen → ExprPhrase bs body →
      ExprPhrase (k :: (gs ++ t :: bs)) (.assert guard body (some k.position.line))

/-! ## The front token tells the form -/

def Ty.startKind : Ty → Token.Kind
  | int => .kwInt
  | bool => .kwBool
  | arrow _ _ => .openParen

def Expr.startKind : Expr → Token.Kind
  | number _ => .number
  | bool value => if value then .kwTrue else .kwFalse
  | negate _ | subtract _ _ => .minus
  | isZero _ => .kwZero
  | ite _ _ _ => .kwIf
  | identifier _ => .name
  | letIn _ _ _ => .kwLet
  | proc _ _ _ => .kwProc
  | apply _ _ => .openParen
  | letrec _ _ _ _ _ _ => .kwLetrec
  | assert _ _ _ => .kwAssert

theorem TyPhrase.front {ts : List Token} {t : Ty} (h : TyPhrase ts t) :
    ∃ k us, ts = k :: us ∧ k.kind = t.startKind := by
  cases h <;> exact ⟨_, _, rfl, ‹_›⟩

theorem ExprPhrase.front {ts : List Token} {e : Expr} (h : ExprPhrase ts e) :
    ∃ k us, ts = k :: us ∧ k.kind = e.startKind := by
  cases h <;> exact ⟨_, _, rfl, ‹_›⟩

theorem TyPhrase.startKind_eq {ts us r s : List Token} {t u : Ty} (h : TyPhrase ts t)
    (h' : TyPhrase us u) (heq : ts ++ r = us ++ s) : t.startKind = u.startKind := by
  obtain ⟨k, ts, rfl, hk⟩ := h.front
  obtain ⟨l, us, rfl, hl⟩ := h'.front
  obtain ⟨rfl, -⟩ := List.cons.inj heq
  rw [← hk, hl]

theorem ExprPhrase.startKind_eq {ts us r s : List Token} {e d : Expr} (h : ExprPhrase ts e)
    (h' : ExprPhrase us d) (heq : ts ++ r = us ++ s) : e.startKind = d.startKind := by
  obtain ⟨k, ts, rfl, hk⟩ := h.front
  obtain ⟨l, us, rfl, hl⟩ := h'.front
  obtain ⟨rfl, -⟩ := List.cons.inj heq
  rw [← hk, hl]

/-! ## A phrase shows its own end -/

/-- Two types at the front of one sequence of tokens are the same type, and the same tokens follow. -/
theorem TyPhrase.prefix_free {ts us r s : List Token} {t u : Ty} (h : TyPhrase ts t)
    (h' : TyPhrase us u) (heq : ts ++ r = us ++ s) : t = u ∧ r = s := by
  induction h generalizing us r s u with
  | int hk =>
      have hstart := (TyPhrase.int hk).startKind_eq h' heq
      cases h' with
      | int hk' => simp_all
      | _ => cases hstart
  | bool hk =>
      have hstart := (TyPhrase.bool hk).startKind_eq h' heq
      cases h' with
      | bool hk' => simp_all
      | _ => cases hstart
  | arrow ho hd ha hc hp ihd ihc =>
      have hstart := (TyPhrase.arrow ho hd ha hc hp).startKind_eq h' heq
      cases h' with
      | arrow ho' hd' ha' hc' hp' =>
          simp only [List.cons_append, List.append_assoc, List.nil_append, List.cons.injEq] at heq
          obtain ⟨rfl, hrest⟩ := heq
          obtain ⟨rfl, harrow⟩ := ihd hd' hrest
          obtain ⟨rfl, hclose⟩ := ihc hc' (List.cons.inj harrow).2
          exact ⟨rfl, (List.cons.inj hclose).2⟩
      | _ => cases hstart

/-- Two expressions at the front of one sequence of tokens are the same expression, and the same tokens
follow. -/
theorem ExprPhrase.prefix_free {ts us r s : List Token} {e d : Expr} (h : ExprPhrase ts e)
    (h' : ExprPhrase us d) (heq : ts ++ r = us ++ s) : e = d ∧ r = s := by
  induction h generalizing us r s d with
  | number hk =>
      have hstart := (ExprPhrase.number hk).startKind_eq h' heq
      cases h' with
      | number hk' => simp_all
      | _ => cases hstart
  | true hk =>
      have hstart := (ExprPhrase.true hk).startKind_eq h' heq
      cases h' with
      | true hk' => simp_all
      | _ => cases hstart
  | false hk =>
      have hstart := (ExprPhrase.false hk).startKind_eq h' heq
      cases h' with
      | false hk' => simp_all
      | _ => cases hstart
  | name hk =>
      have hstart := (ExprPhrase.name hk).startKind_eq h' heq
      cases h' with
      | name hk' => simp_all
      | _ => cases hstart
  | negate hm ho he hc ih =>
      have hstart := (ExprPhrase.negate hm ho he hc).startKind_eq h' heq
      cases h' with
      | negate hm' ho' he' hc' =>
          simp only [List.cons_append, List.append_assoc, List.nil_append, List.cons.injEq] at heq
          obtain ⟨rfl, rfl, hrest⟩ := heq
          obtain ⟨rfl, hclose⟩ := ih he' hrest
          exact ⟨rfl, (List.cons.inj hclose).2⟩
      | subtract hm' ho' hl' ha' hr' hc' =>
          simp only [List.cons_append, List.append_assoc, List.nil_append, List.cons.injEq] at heq
          -- Only the token behind the operand tells the two apart.
          obtain ⟨rfl, rfl, hrest⟩ := heq
          obtain ⟨-, hcomma⟩ := ih hl' hrest
          obtain ⟨rfl, -⟩ := List.cons.inj hcomma
          rw [hc] at ha'
          cases ha'
      | _ => cases hstart
  | subtract hm ho hl ha hr hc ihl ihr =>
      have hstart := (ExprPhrase.subtract hm ho hl ha hr hc).startKind_eq h' heq
      cases h' with
      | subtract hm' ho' hl' ha' hr' hc' =>
          simp only [List.cons_append, List.append_assoc, List.nil_append, List.cons.injEq] at heq
          obtain ⟨rfl, rfl, hrest⟩ := heq
          obtain ⟨rfl, hcomma⟩ := ihl hl' hrest
          obtain ⟨rfl, hclose⟩ := ihr hr' (List.cons.inj hcomma).2
          exact ⟨rfl, (List.cons.inj hclose).2⟩
      | negate hm' ho' he' hc' =>
          simp only [List.cons_append, List.append_assoc, List.nil_append, List.cons.injEq] at heq
          obtain ⟨rfl, rfl, hrest⟩ := heq
          obtain ⟨-, hcomma⟩ := ihl he' hrest
          obtain ⟨rfl, -⟩ := List.cons.inj hcomma
          rw [ha] at hc'
          cases hc'
      | _ => cases hstart
  | isZero hk ho he hc ih =>
      have hstart := (ExprPhrase.isZero hk ho he hc).startKind_eq h' heq
      cases h' with
      | isZero hk' ho' he' hc' =>
          simp only [List.cons_append, List.append_assoc, List.nil_append, List.cons.injEq] at heq
          obtain ⟨rfl, rfl, hrest⟩ := heq
          obtain ⟨rfl, hclose⟩ := ih he' hrest
          exact ⟨rfl, (List.cons.inj hclose).2⟩
      | _ => cases hstart
  | ite hk hg ht hth hl hel ihg ihth ihel =>
      have hstart := (ExprPhrase.ite hk hg ht hth hl hel).startKind_eq h' heq
      cases h' with
      | ite hk' hg' ht' hth' hl' hel' =>
          simp only [List.cons_append, List.append_assoc, List.cons.injEq] at heq
          obtain ⟨rfl, hrest⟩ := heq
          obtain ⟨rfl, hthen⟩ := ihg hg' hrest
          obtain ⟨rfl, helse⟩ := ihth hth' (List.cons.inj hthen).2
          obtain ⟨rfl, hend⟩ := ihel hel' (List.cons.inj helse).2
          exact ⟨rfl, hend⟩
      | _ => cases hstart
  | letIn hk hx hq hi hn hb ihi ihb =>
      have hstart := (ExprPhrase.letIn hk hx hq hi hn hb).startKind_eq h' heq
      cases h' with
      | letIn hk' hx' hq' hi' hn' hb' =>
          simp only [List.cons_append, List.append_assoc, List.cons.injEq] at heq
          obtain ⟨rfl, rfl, rfl, hrest⟩ := heq
          obtain ⟨rfl, hin⟩ := ihi hi' hrest
          obtain ⟨rfl, hend⟩ := ihb hb' (List.cons.inj hin).2
          exact ⟨rfl, hend⟩
      | _ => cases hstart
  | proc hk ho hx hn ht hc hb ihb =>
      have hstart := (ExprPhrase.proc hk ho hx hn ht hc hb).startKind_eq h' heq
      cases h' with
      | proc hk' ho' hx' hn' ht' hc' hb' =>
          simp only [List.cons_append, List.append_assoc, List.cons.injEq] at heq
          obtain ⟨rfl, rfl, rfl, rfl, hrest⟩ := heq
          obtain ⟨rfl, hclose⟩ := ht.prefix_free ht' hrest
          obtain ⟨rfl, hend⟩ := ihb hb' (List.cons.inj hclose).2
          exact ⟨rfl, hend⟩
      | _ => cases hstart
  | apply ho hf ha hc ihf iha =>
      have hstart := (ExprPhrase.apply ho hf ha hc).startKind_eq h' heq
      cases h' with
      | apply ho' hf' ha' hc' =>
          simp only [List.cons_append, List.append_assoc, List.nil_append, List.cons.injEq] at heq
          obtain ⟨rfl, hrest⟩ := heq
          obtain ⟨rfl, harg⟩ := ihf hf' hrest
          obtain ⟨rfl, hclose⟩ := iha ha' harg
          exact ⟨rfl, (List.cons.inj hclose).2⟩
      | _ => cases hstart
  | letrec hk hr hf ho hx hn ht hc hb hi hl ihb ihl =>
      have hstart := (ExprPhrase.letrec hk hr hf ho hx hn ht hc hb hi hl).startKind_eq h' heq
      cases h' with
      | letrec hk' hr' hf' ho' hx' hn' ht' hc' hb' hi' hl' =>
          simp only [List.cons_append, List.append_assoc, List.cons.injEq] at heq
          obtain ⟨rfl, hrest⟩ := heq
          obtain ⟨rfl, hname⟩ := hr.prefix_free hr' hrest
          simp only [List.cons.injEq] at hname
          obtain ⟨rfl, rfl, rfl, rfl, htype⟩ := hname
          obtain ⟨rfl, hclose⟩ := ht.prefix_free ht' htype
          obtain ⟨rfl, hin⟩ := ihb hb' (List.cons.inj hclose).2
          obtain ⟨rfl, hend⟩ := ihl hl' (List.cons.inj hin).2
          exact ⟨rfl, hend⟩
      | _ => cases hstart
  | assert hk hg ht hb ihg ihb =>
      have hstart := (ExprPhrase.assert hk hg ht hb).startKind_eq h' heq
      cases h' with
      | assert hk' hg' ht' hb' =>
          simp only [List.cons_append, List.append_assoc, List.cons.injEq] at heq
          obtain ⟨rfl, hrest⟩ := heq
          obtain ⟨rfl, hthen⟩ := ihg hg' hrest
          obtain ⟨rfl, hend⟩ := ihb hb' (List.cons.inj hthen).2
          exact ⟨rfl, hend⟩
      | _ => cases hstart

theorem ExprPhrase.unique {ts : List Token} {e d : Expr} (h : ExprPhrase ts e)
    (h' : ExprPhrase ts d) : e = d :=
  (h.prefix_free h' (rfl : ts ++ [] = ts ++ [])).1

/-! ## Kinds alone decide -/

theorem TyPhrase.of_kinds {ts us : List Token} {t : Ty} (h : TyPhrase ts t)
    (hkinds : us.map Token.kind = ts.map Token.kind) : ∃ u, TyPhrase us u := by
  induction h generalizing us <;>
    simp only [List.map_cons, List.map_append, List.map_nil, List.map_eq_cons_iff,
      List.map_eq_append_iff, List.map_eq_nil_iff] at hkinds
  case int hk =>
      obtain ⟨k', _, rfl, hk', rfl⟩ := hkinds
      exact ⟨_, .int (hk'.trans hk)⟩
  case bool hk =>
      obtain ⟨k', _, rfl, hk', rfl⟩ := hkinds
      exact ⟨_, .bool (hk'.trans hk)⟩
  case arrow ho hd ha hc hp ihd ihc =>
      obtain ⟨o', _, rfl, ho', ds', _, rfl, hds, a', _, rfl, ha', cs', _, rfl, hcs, c', _, rfl, hc',
        rfl⟩ := hkinds
      obtain ⟨domain, hd⟩ := ihd hds
      obtain ⟨codomain, hc⟩ := ihc hcs
      exact ⟨_, .arrow (ho'.trans ho) hd (ha'.trans ha) hc (hc'.trans hp)⟩

/-- Tokens of the same kinds as those of an expression are an expression. -/
theorem ExprPhrase.of_kinds {ts us : List Token} {e : Expr} (h : ExprPhrase ts e)
    (hkinds : us.map Token.kind = ts.map Token.kind) : ∃ d, ExprPhrase us d := by
  induction h generalizing us <;>
    simp only [List.map_cons, List.map_append, List.map_nil, List.map_eq_cons_iff,
      List.map_eq_append_iff, List.map_eq_nil_iff] at hkinds
  case number hk =>
      obtain ⟨k', _, rfl, hk', rfl⟩ := hkinds
      exact ⟨_, .number (hk'.trans hk)⟩
  case true hk =>
      obtain ⟨k', _, rfl, hk', rfl⟩ := hkinds
      exact ⟨_, .true (hk'.trans hk)⟩
  case false hk =>
      obtain ⟨k', _, rfl, hk', rfl⟩ := hkinds
      exact ⟨_, .false (hk'.trans hk)⟩
  case name hk =>
      obtain ⟨k', _, rfl, hk', rfl⟩ := hkinds
      exact ⟨_, .name (hk'.trans hk)⟩
  case negate hm ho he hc ih =>
      obtain ⟨m', _, rfl, hm', o', _, rfl, ho', es', _, rfl, hes, c', _, rfl, hc', rfl⟩ := hkinds
      obtain ⟨operand, he⟩ := ih hes
      exact ⟨_, .negate (hm'.trans hm) (ho'.trans ho) he (hc'.trans hc)⟩
  case subtract hm ho hl ha hr hc ihl ihr =>
      obtain ⟨m', _, rfl, hm', o', _, rfl, ho', ls', _, rfl, hls, a', _, rfl, ha', rs', _, rfl, hrs, c',
        _, rfl, hc', rfl⟩ := hkinds
      obtain ⟨left, hl⟩ := ihl hls
      obtain ⟨right, hr⟩ := ihr hrs
      exact ⟨_, .subtract (hm'.trans hm) (ho'.trans ho) hl (ha'.trans ha) hr (hc'.trans hc)⟩
  case isZero hk ho he hc ih =>
      obtain ⟨k', _, rfl, hk', o', _, rfl, ho', es', _, rfl, hes, c', _, rfl, hc', rfl⟩ := hkinds
      obtain ⟨operand, he⟩ := ih hes
      exact ⟨_, .isZero (hk'.trans hk) (ho'.trans ho) he (hc'.trans hc)⟩
  case ite hk hg ht hth hl hel ihg ihth ihel =>
      obtain ⟨k', _, rfl, hk', gs', _, rfl, hgs, t', _, rfl, ht', ts', _, rfl, hts, l', es', rfl, hl',
        hes⟩ := hkinds
      obtain ⟨guard, hg⟩ := ihg hgs
      obtain ⟨thenBranch, hth⟩ := ihth hts
      obtain ⟨elseBranch, hel⟩ := ihel hes
      exact ⟨_, .ite (hk'.trans hk) hg (ht'.trans ht) hth (hl'.trans hl) hel⟩
  case letIn hk hx hq hi hn hb ihi ihb =>
      obtain ⟨k', _, rfl, hk', x', _, rfl, hx', q', _, rfl, hq', is', _, rfl, his, i', bs', rfl, hi',
        hbs⟩ := hkinds
      obtain ⟨init, hi⟩ := ihi his
      obtain ⟨body, hb⟩ := ihb hbs
      exact ⟨_, .letIn (hk'.trans hk) (hx'.trans hx) (hq'.trans hq) hi (hi'.trans hn) hb⟩
  case proc hk ho hx hn ht hc hb ihb =>
      obtain ⟨k', _, rfl, hk', o', _, rfl, ho', x', _, rfl, hx', n', _, rfl, hn', ts', _, rfl, hts, c',
        bs', rfl, hc', hbs⟩ := hkinds
      obtain ⟨paramType, ht⟩ := ht.of_kinds hts
      obtain ⟨body, hb⟩ := ihb hbs
      exact ⟨_, .proc (hk'.trans hk) (ho'.trans ho) (hx'.trans hx) (hn'.trans hn) ht (hc'.trans hc) hb⟩
  case apply ho hf ha hc ihf iha =>
      obtain ⟨o', _, rfl, ho', fs', _, rfl, hfs, as', _, rfl, has, c', _, rfl, hc', rfl⟩ := hkinds
      obtain ⟨fn, hf⟩ := ihf hfs
      obtain ⟨arg, ha⟩ := iha has
      exact ⟨_, .apply (ho'.trans ho) hf ha (hc'.trans hc)⟩
  case letrec hk hr hf ho hx hn ht hc hb hi hl ihb ihl =>
      obtain ⟨k', _, rfl, hk', rs', _, rfl, hrs, f', _, rfl, hf', o', _, rfl, ho', x', _, rfl, hx', n',
        _, rfl, hn', ts', _, rfl, hts, c', _, rfl, hc', bs', _, rfl, hbs, i', ls', rfl, hi', hls⟩ :=
        hkinds
      obtain ⟨returnType, hr⟩ := hr.of_kinds hrs
      obtain ⟨paramType, ht⟩ := ht.of_kinds hts
      obtain ⟨body, hb⟩ := ihb hbs
      obtain ⟨letBody, hl⟩ := ihl hls
      exact ⟨_, .letrec (hk'.trans hk) hr (hf'.trans hf) (ho'.trans ho) (hx'.trans hx) (hn'.trans hn) ht
        (hc'.trans hc) hb (hi'.trans hi) hl⟩
  case assert hk hg ht hb ihg ihb =>
      obtain ⟨k', _, rfl, hk', gs', _, rfl, hgs, t', bs', rfl, ht', hbs⟩ := hkinds
      obtain ⟨guard, hg⟩ := ihg hgs
      obtain ⟨body, hb⟩ := ihb hbs
      exact ⟨_, .assert (hk'.trans hk) hg (ht'.trans ht) hb⟩

end TypedLet
