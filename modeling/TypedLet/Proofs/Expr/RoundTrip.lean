import TypedLet.Expr.Source
import TypedLet.Proofs.Expr.Layout
import TypedLet.Proofs.Expr.Recognition

/-!
# Parsing undoes printing

An expression is printable when its names are words and no keywords and its numbers are digits. A
printable expression is found again in its printed text, except that each `assert` is then on the line
that it is printed on. Nothing else can be: what the parser returns is always printable.
-/

namespace TypedLet

namespace Expr

/-- The expression with the same line for each `assert`. -/
def withLines (line : Option Int) : Expr → Expr
  | number text => number text
  | bool value => bool value
  | negate operand => negate (operand.withLines line)
  | subtract left right => subtract (left.withLines line) (right.withLines line)
  | isZero operand => isZero (operand.withLines line)
  | ite guard thenBranch elseBranch =>
    ite (guard.withLines line) (thenBranch.withLines line) (elseBranch.withLines line)
  | identifier name => identifier name
  | letIn name init body => letIn name (init.withLines line) (body.withLines line)
  | proc param paramType body => proc param paramType (body.withLines line)
  | apply fn arg => apply (fn.withLines line) (arg.withLines line)
  | letrec returnType name param paramType body letBody =>
    letrec returnType name param paramType (body.withLines line) (letBody.withLines line)
  | assert guard body _ => assert (guard.withLines line) (body.withLines line) line

/-- Whether the numbers of the expression are digits and its names are words and no keywords. -/
def isPrintable : Expr → Bool
  | number text => Text.isDigits text
  | bool _ => true
  | negate operand => operand.isPrintable
  | subtract left right => left.isPrintable && right.isPrintable
  | isZero operand => operand.isPrintable
  | ite guard thenBranch elseBranch =>
    guard.isPrintable && thenBranch.isPrintable && elseBranch.isPrintable
  | identifier name => Text.isName name
  | letIn name init body => Text.isName name && init.isPrintable && body.isPrintable
  | proc param _ body => Text.isName param && body.isPrintable
  | apply fn arg => fn.isPrintable && arg.isPrintable
  | letrec _ name param _ body letBody =>
    Text.isName name && Text.isName param && body.isPrintable && letBody.isPrintable
  | assert guard body _ => guard.isPrintable && body.isPrintable

@[simp] theorem withLines_withLines (line line' : Option Int) (e : Expr) :
    (e.withLines line').withLines line = e.withLines line := by
  induction e with
  | number | bool | identifier => rfl
  | _ => simp only [withLines, *]

@[simp] theorem isPrintable_withLines (line : Option Int) (e : Expr) :
    (e.withLines line).isPrintable = e.isPrintable := by
  induction e with
  | number | bool | identifier => rfl
  | _ => simp only [withLines, isPrintable, *]

end Expr

/-! ## Printable expressions are made of lexemes -/

theorem Ty.allLex_layout (t : Ty) : Piece.AllLex t.layout := by
  induction t with
  | int | bool => simp [layout, Piece.lexes_fixed]
  | arrow domain codomain ihd ihc => simp [layout, Piece.lexes_fixed, ihd, ihc]

theorem Expr.allLex_layout {e : Expr} (h : e.isPrintable = true) : Piece.AllLex e.layout := by
  induction e with
  | bool value => cases value <;> simp [layout, Piece.lexes_fixed]
  | _ =>
      simp only [isPrintable, Bool.and_eq_true] at h
      simp_all [layout, Piece.lexes_fixed, Piece.lexes_name, Piece.lexes_number, Ty.allLex_layout]

/-! ## The lexemes of a tree are a phrase for it -/

theorem TyPhrase.of_lexemes {t : Ty} {ts : List Token} (h : ts.map Token.lexeme = t.lexemes) :
    TyPhrase ts t := by
  induction t generalizing ts <;>
    simp only [Ty.lexemes, Ty.layout, List.filterMap_cons, List.filterMap_append, List.filterMap_nil,
      Piece.lexeme?_blank, Piece.lexeme?_fixed, List.map_eq_cons_iff, List.map_eq_append_iff,
      List.map_eq_nil_iff, Token.lexeme_eq_iff] at h
  case int =>
      obtain ⟨k, _, rfl, ⟨hk, -⟩, rfl⟩ := h
      exact .int hk
  case bool =>
      obtain ⟨k, _, rfl, ⟨hk, -⟩, rfl⟩ := h
      exact .bool hk
  case arrow domain codomain ihd ihc =>
      obtain ⟨o, _, rfl, ⟨ho, -⟩, ds, _, rfl, hds, a, _, rfl, ⟨ha, -⟩, cs, _, rfl, hcs, c, _, rfl,
        ⟨hc, -⟩, rfl⟩ := h
      exact .arrow ho (ihd hds) ha (ihc hcs) hc

/-- Tokens on one line that are the lexemes of an expression are a phrase for it, with that line for
each `assert`. -/
theorem ExprPhrase.of_lexemes {e : Expr} {line : Int} {ts : List Token}
    (h : ts.map Token.lexeme = e.lexemes) (hline : ∀ t ∈ ts, t.position.line = line) :
    ExprPhrase ts (e.withLines (some line)) := by
  induction e generalizing ts <;>
    simp only [Expr.lexemes, Expr.layout, List.filterMap_cons, List.filterMap_append,
      List.filterMap_nil, Piece.lexeme?_blank, Piece.lexeme?_fixed, Piece.lexeme?_lexeme,
      List.map_eq_cons_iff, List.map_eq_append_iff, List.map_eq_nil_iff, Token.lexeme_eq_iff] at h
  case number text =>
      obtain ⟨k, _, rfl, ⟨hk, rfl⟩, rfl⟩ := h
      exact .number hk
  case bool value =>
      obtain ⟨k, _, rfl, ⟨hk, -⟩, rfl⟩ := h
      cases value with
      | true => exact .true hk
      | false => exact .false hk
  case negate operand ih =>
      obtain ⟨m, _, rfl, ⟨hm, -⟩, o, _, rfl, ⟨ho, -⟩, es, _, rfl, hes, c, _, rfl, ⟨hc, -⟩, rfl⟩ := h
      simp only [List.forall_mem_cons, List.forall_mem_append] at hline
      exact .negate hm ho (ih hes hline.2.2.1) hc
  case subtract left right ihl ihr =>
      obtain ⟨m, _, rfl, ⟨hm, -⟩, o, _, rfl, ⟨ho, -⟩, ls, _, rfl, hls, a, _, rfl, ⟨ha, -⟩, rs, _, rfl,
        hrs, c, _, rfl, ⟨hc, -⟩, rfl⟩ := h
      simp only [List.forall_mem_cons, List.forall_mem_append] at hline
      exact .subtract hm ho (ihl hls hline.2.2.1) ha (ihr hrs hline.2.2.2.2.1) hc
  case isZero operand ih =>
      obtain ⟨k, _, rfl, ⟨hk, -⟩, o, _, rfl, ⟨ho, -⟩, es, _, rfl, hes, c, _, rfl, ⟨hc, -⟩, rfl⟩ := h
      simp only [List.forall_mem_cons, List.forall_mem_append] at hline
      exact .isZero hk ho (ih hes hline.2.2.1) hc
  case ite guard thenBranch elseBranch ihg iht ihe =>
      obtain ⟨k, _, rfl, ⟨hk, -⟩, gs, _, rfl, hgs, t, _, rfl, ⟨ht, -⟩, ts, _, rfl, hts, l, es, rfl,
        ⟨hl, -⟩, hes⟩ := h
      simp only [List.forall_mem_cons, List.forall_mem_append] at hline
      obtain ⟨-, hlg, -, hlt, -, hle⟩ := hline
      exact .ite hk (ihg hgs hlg) ht (iht hts hlt) hl (ihe hes hle)
  case identifier name =>
      obtain ⟨x, _, rfl, ⟨hx, rfl⟩, rfl⟩ := h
      exact .name hx
  case letIn name init body ihi ihb =>
      obtain ⟨k, _, rfl, ⟨hk, -⟩, x, _, rfl, ⟨hx, rfl⟩, q, _, rfl, ⟨hq, -⟩, is, _, rfl, his, i, bs, rfl,
        ⟨hi, -⟩, hbs⟩ := h
      simp only [List.forall_mem_cons, List.forall_mem_append] at hline
      obtain ⟨-, -, -, hli, -, hlb⟩ := hline
      exact .letIn hk hx hq (ihi his hli) hi (ihb hbs hlb)
  case proc param paramType body ihb =>
      obtain ⟨k, _, rfl, ⟨hk, -⟩, o, _, rfl, ⟨ho, -⟩, x, _, rfl, ⟨hx, rfl⟩, n, _, rfl, ⟨hn, -⟩, ts, _,
        rfl, hts, c, bs, rfl, ⟨hc, -⟩, hbs⟩ := h
      simp only [List.forall_mem_cons, List.forall_mem_append] at hline
      obtain ⟨-, -, -, -, -, -, hlb⟩ := hline
      exact .proc hk ho hx hn (.of_lexemes hts) hc (ihb hbs hlb)
  case apply fn arg ihf iha =>
      obtain ⟨o, _, rfl, ⟨ho, -⟩, fs, _, rfl, hfs, as, _, rfl, has, c, _, rfl, ⟨hc, -⟩, rfl⟩ := h
      simp only [List.forall_mem_cons, List.forall_mem_append] at hline
      obtain ⟨-, hlf, hla, -⟩ := hline
      exact .apply ho (ihf hfs hlf) (iha has hla) hc
  case letrec returnType name param paramType body letBody ihb ihl =>
      obtain ⟨k, _, rfl, ⟨hk, -⟩, rs, _, rfl, hrs, f, _, rfl, ⟨hf, rfl⟩, o, _, rfl, ⟨ho, -⟩, x, _, rfl,
        ⟨hx, rfl⟩, n, _, rfl, ⟨hn, -⟩, ts, _, rfl, hts, c, _, rfl, ⟨hc, -⟩, bs, _, rfl, hbs, i, ls, rfl,
        ⟨hi, -⟩, hls⟩ := h
      simp only [List.forall_mem_cons, List.forall_mem_append] at hline
      obtain ⟨-, -, -, -, -, -, -, -, hlb, -, hll⟩ := hline
      exact .letrec hk (.of_lexemes hrs) hf ho hx hn (.of_lexemes hts) hc (ihb hbs hlb) hi (ihl hls hll)
  case assert guard body line' ihg ihb =>
      obtain ⟨k, _, rfl, ⟨hk, -⟩, gs, _, rfl, hgs, t, bs, rfl, ⟨ht, -⟩, hbs⟩ := h
      simp only [List.forall_mem_cons, List.forall_mem_append] at hline
      obtain ⟨hlk, hlg, -, hlb⟩ := hline
      subst hlk
      exact .assert hk (ihg hgs hlg) ht (ihb hbs hlb)

/-! ## What is parsed is printable -/

theorem Expr.isPrintable_of_phrase {ts : List Token} {e : Expr} (h : ExprPhrase ts e)
    (hnumber : ∀ t ∈ ts, t.kind = .number → Text.isDigits t.text = true)
    (hname : ∀ t ∈ ts, t.kind = .name → Text.isName t.text = true) : e.isPrintable = true := by
  induction h with
  | number hn => exact hnumber _ List.mem_cons_self hn
  | true | false => rfl
  | name hx => exact hname _ List.mem_cons_self hx
  | _ => simp_all [isPrintable, or_imp, forall_and]

theorem tokenize_lexemes {source : String} {s : TokenStream} (h : tokenize source = .ok s) :
    ∀ t ∈ s.pending, ∃ us, Lexer.Lexeme t.kind us ∧ t.text = Text.ofUnits us :=
  Cursor.readUpTo_lexemes h

theorem number_of_tokenize {source : String} {s : TokenStream} (h : tokenize source = .ok s) :
    ∀ t ∈ s.pending, t.kind = .number → Text.isDigits t.text = true := by
  intro t ht hkind
  obtain ⟨us, hus, htext⟩ := tokenize_lexemes h t ht
  rw [hkind] at hus
  exact htext ▸ hus.isDigits

theorem name_of_tokenize {source : String} {s : TokenStream} (h : tokenize source = .ok s) :
    ∀ t ∈ s.pending, t.kind = .name → Text.isName t.text = true := by
  intro t ht hkind
  obtain ⟨us, hus, htext⟩ := tokenize_lexemes h t ht
  rw [hkind] at hus
  exact htext ▸ hus.isName

/-- The tokens of a text are a program exactly when they are a phrase. -/
theorem program_tokenize_iff {source : String} {s : TokenStream} (h : tokenize source = .ok s)
    {e : Expr} : (Parser.program s).1 = .ok e ↔ ExprPhrase s.pending e := by
  refine Parser.program_iff_phrase (fun t ht => ?_) fun t ht hkind => ?_
  · obtain ⟨us, hus, -⟩ := tokenize_lexemes h t ht
    exact hus.kind_ne_finish
  · exact Text.isNumeral_of_isDigits (number_of_tokenize h t ht hkind)

theorem Expr.ofSource_eq_ok {source : String} {e : Expr} :
    ofSource source = .ok e ↔ ∃ s, tokenize source = .ok s ∧ ExprPhrase s.pending e := by
  unfold ofSource
  cases htokens : tokenize source with
  | error d => simp
  | ok s =>
      simp only [Except.ok.injEq, exists_eq_left', ← program_tokenize_iff htokens]
      cases hprogram : (Parser.program s).1 with
      | error d => simp
      | ok d => simp

theorem Expr.isPrintable_of_ofSource {source : String} {e : Expr} (h : ofSource source = .ok e) :
    e.isPrintable = true := by
  obtain ⟨s, htokens, hphrase⟩ := ofSource_eq_ok.1 h
  exact isPrintable_of_phrase hphrase (number_of_tokenize htokens) (name_of_tokenize htokens)

/-! ## The round trip -/

theorem Expr.ofSource_render_of_isPrintable {e : Expr} (h : e.isPrintable = true) :
    ofSource e.render = .ok (e.withLines (some 1)) := by
  obtain ⟨s, htokens, hlexemes, hline⟩ := tokenize_render (allLex_layout h)
  exact ofSource_eq_ok.2 ⟨s, htokens, .of_lexemes hlexemes hline⟩

/-- Parsing undoes printing, exactly on the printable expressions. The printed text of an expression
parses to the expression up to the lines of its `assert`s if and only if the expression is printable,
and then each of these lines is the first. What is parsed from a text is always printable, so to print
and to parse it again gives it back. -/
theorem Expr.ofSource_render :
    (∀ e : Expr, (∃ d, ofSource e.render = .ok d ∧ d.withLines none = e.withLines none) ↔
      e.isPrintable = true) ∧
    (∀ e d : Expr, ofSource e.render = .ok d → d.withLines none = e.withLines none →
      d = e.withLines (some 1)) ∧
    (∀ (source : String) (e : Expr), ofSource source = .ok e →
      e.isPrintable = true ∧ ofSource e.render = .ok (e.withLines (some 1))) := by
  refine ⟨fun e => ⟨?_, fun h => ?_⟩, fun e d hd hlines => ?_, fun source e h => ?_⟩
  · -- Whatever comes back is printable, and to be printable does not depend on lines.
    rintro ⟨d, hd, hlines⟩
    rw [← isPrintable_withLines none e, ← hlines, isPrintable_withLines]
    exact isPrintable_of_ofSource hd
  · exact ⟨_, ofSource_render_of_isPrintable h, withLines_withLines none (some 1) e⟩
  · have hprintable : e.isPrintable = true := by
      rw [← isPrintable_withLines none e, ← hlines, isPrintable_withLines]
      exact isPrintable_of_ofSource hd
    rw [ofSource_render_of_isPrintable hprintable] at hd
    exact (Except.ok.inj hd).symm
  · have hprintable := isPrintable_of_ofSource h
    exact ⟨hprintable, ofSource_render_of_isPrintable hprintable⟩

/-- A `let` around an `assert` on the third line. -/
def checkedLet : Expr :=
  .letIn "n" (.number "007") (.assert (.isZero (.identifier "n")) (.identifier "n") (some 3))

theorem checkedLet_round_trip :
    checkedLet.isPrintable = true ∧ ∃ d, Expr.ofSource checkedLet.render = .ok d ∧
      d = checkedLet.withLines (some 1) := by
  obtain ⟨hiff, hfirst, -⟩ := Expr.ofSource_render
  have hprintable : checkedLet.isPrintable = true := by decide
  obtain ⟨d, hd, hlines⟩ := (hiff checkedLet).2 hprintable
  exact ⟨hprintable, d, hd, hfirst checkedLet d hd hlines⟩

end TypedLet
