import TypedLet.Proofs.Expr.RoundTrip

/-!
# Printing undoes parsing, up to layout

A tree has one phrase only, as far as kinds and texts go: no token is read and then left out of the
tree, and none is written that was not read. So the printed text of what a source parses to has the
tokens of the source, and only its gaps differ.
-/

namespace TypedLet

/-! ## Lexemes of a kind with one text -/

theorem Lexer.Lexeme.ofUnits_eq_fixedText {kind : Token.Kind} {us : List UInt16}
    (h : Lexer.Lexeme kind us) (hnumber : kind ≠ .number) (hname : kind ≠ .name) :
    Text.ofUnits us = kind.fixedText := by
  have hkeywords : ∀ p ∈ Token.keywords, p.1 = p.2.fixedText := by decide
  have hmarks : ∀ m ∈ Lexer.marks, Text.ofUnits [m.1] = m.2.fixedText := by decide
  cases h with
  | number => contradiction
  | word hu hus =>
      rcases Token.Kind.ofWord_cases (Text.ofUnits (_ :: _)) with ⟨-, hword⟩ | hmem
      · contradiction
      · exact hkeywords _ hmem
  | minus | arrow => decide
  | mark hmark => exact hmarks _ hmark

/-- The token has the text of its kind, unless it is a number or a name. -/
def Token.Spelled (t : Token) : Prop :=
  t.kind ≠ .number → t.kind ≠ .name → t.text = t.kind.fixedText

theorem Token.Spelled.lexeme_eq {t : Token} {kind : Token.Kind} (h : t.Spelled) (hkind : t.kind = kind)
    (hnumber : kind ≠ .number) (hname : kind ≠ .name) : t.lexeme = (kind, kind.fixedText) := by
  subst hkind
  exact congrArg (Prod.mk t.kind) (h hnumber hname)

theorem spelled_of_tokenize {source : String} {s : TokenStream} (h : tokenize source = .ok s) :
    ∀ t ∈ s.pending, t.Spelled := by
  intro t ht hnumber hname
  obtain ⟨us, hus, htext⟩ := tokenize_lexemes h t ht
  rw [htext, hus.ofUnits_eq_fixedText hnumber hname]

theorem finish_of_tokenize {source : String} {s : TokenStream} (h : tokenize source = .ok s) :
    s.finish.lexeme = (.finish, "") := by
  unfold tokenize Cursor.ofText at h
  rcases Cursor.read_cases (Text.units source) with ⟨ts, gap, -, -, hok⟩ | ⟨_, _, _, _, _, -, -, -, -, herror⟩
  · rw [hok, Except.ok.injEq] at h
    subst h
    rfl
  · rw [herror] at h
    cases h

/-! ## The lexemes of a phrase are those of its tree -/

theorem TyPhrase.map_lexeme {ts : List Token} {t : Ty} (h : TyPhrase ts t)
    (hspelled : ∀ k ∈ ts, k.Spelled) : ts.map Token.lexeme = t.lexemes := by
  induction h with
  | int hk | bool hk =>
      exact congrArg (· :: []) ((hspelled _ List.mem_cons_self).lexeme_eq hk (by decide) (by decide))
  | arrow =>
      simp_all [Ty.lexemes, Ty.layout, List.filterMap_cons, Token.Spelled.lexeme_eq, or_imp, forall_and]

theorem ExprPhrase.map_lexeme {ts : List Token} {e : Expr} (h : ExprPhrase ts e)
    (hspelled : ∀ k ∈ ts, k.Spelled) : ts.map Token.lexeme = e.lexemes := by
  induction h with
  | number hk | name hk => exact congrArg (· :: []) (Prod.ext hk rfl)
  | true hk | false hk =>
      exact congrArg (· :: []) ((hspelled _ List.mem_cons_self).lexeme_eq hk (by decide) (by decide))
  | proc hk ho hx hn ht hc hb ihb =>
      simp only [List.forall_mem_cons, List.forall_mem_append] at hspelled
      have htype := ht.map_lexeme hspelled.2.2.2.2.1
      simp_all [Expr.lexemes, Ty.lexemes, Expr.layout, List.filterMap_cons, Token.Spelled.lexeme_eq]
  | letrec hk hr hf ho hx hn ht hc hb hi hl ihb ihl =>
      simp only [List.forall_mem_cons, List.forall_mem_append] at hspelled
      have hreturn := hr.map_lexeme hspelled.2.1
      have htype := ht.map_lexeme hspelled.2.2.2.2.2.2.1
      simp_all [Expr.lexemes, Ty.lexemes, Expr.layout, List.filterMap_cons, Token.Spelled.lexeme_eq]
  | _ =>
      simp only [List.forall_mem_cons, List.forall_mem_append] at hspelled
      simp_all [Expr.lexemes, Expr.layout, List.filterMap_cons, Token.Spelled.lexeme_eq]

/-! ## Only layout is lost -/

theorem eq_blank_of_mem_layoutUnits {ps : List Piece} (h : Piece.AllLex ps) {u : UInt16}
    (hu : u ∈ layoutUnits ps) (hgap : u ∈ Lexer.gapMarks) : u = Lexer.unit ' ' := by
  obtain ⟨p, hp, hup⟩ := List.mem_flatMap.1 hu
  cases p with
  | blank => exact List.mem_singleton.1 hup
  | lexeme kind text => exact absurd hgap ((h _ hp).1.not_mem_gapMarks u hup)

/-- Printing loses nothing but layout. A source that parses and the printed text of what it parses to
have tokens of the same kinds and texts, one for one, and the printed text is on one line, without
comments and with nothing but blanks between its tokens. -/
theorem Expr.lexemes_render_of_ofSource {source : String} {e : Expr} (h : ofSource source = .ok e) :
    ∃ s s', tokenize source = .ok s ∧ tokenize e.render = .ok s' ∧
      s'.tokens.map Token.lexeme = s.tokens.map Token.lexeme ∧
      ∀ u ∈ Text.units e.render, u ∈ Lexer.gapMarks → u = Lexer.unit ' ' := by
  have hlexes := allLex_layout (isPrintable_of_ofSource h)
  obtain ⟨s, hs, hphrase⟩ := ofSource_eq_ok.1 h
  obtain ⟨s', hs', hlexemes, -⟩ := tokenize_render hlexes
  refine ⟨s, s', hs, hs', ?_, fun u hu => ?_⟩
  · simp only [TokenStream.tokens, List.map_append, List.map_cons, List.map_nil, hlexemes,
      hphrase.map_lexeme (spelled_of_tokenize hs), finish_of_tokenize hs, finish_of_tokenize hs']
  · rw [units_render] at hu
    exact eq_blank_of_mem_layoutUnits hlexes hu

/-- A program over two lines with a comment, a tab, a number with zeros in front and no blank where none
is needed. -/
def spreadProgram : String := "let n=007 # zeros\n\tin -(n ,1)"

theorem lexemes_render_spreadProgram :
    ∃ e, Expr.ofSource spreadProgram = .ok e ∧ e.render = "let n = 007 in -(n, 1)" ∧
      ∃ s s', tokenize spreadProgram = .ok s ∧ tokenize e.render = .ok s' ∧
        s'.tokens.map Token.lexeme = s.tokens.map Token.lexeme ∧
        ∀ u ∈ Text.units e.render, u ∈ Lexer.gapMarks → u = Lexer.unit ' ' := by
  have hparse : Expr.ofSource spreadProgram = .ok
      (.letIn "n" (.number "007") (.subtract (.identifier "n") (.number "1"))) := by decide +kernel
  exact ⟨_, hparse, by decide +kernel, Expr.lexemes_render_of_ofSource hparse⟩

end TypedLet
