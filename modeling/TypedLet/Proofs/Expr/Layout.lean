import Mathlib.Data.List.Chain
import TypedLet.Expr.Printer
import TypedLet.Proofs.Token.Splitting

/-!
# The layout of a printed expression

The printed text of an expression is a sequence of pieces: lexemes, and blanks between some of them. No
two lexemes that could run together stand side by side, so the lexer takes the text apart again into the
same lexemes, whatever the names and numbers in it are.
-/

namespace TypedLet

/-- The text of the tokens of a kind whose text is always the same. -/
def Token.Kind.fixedText : Token.Kind → String
  | .kwTrue => "true"
  | .kwFalse => "false"
  | .kwLet => "let"
  | .kwLetrec => "letrec"
  | .kwIn => "in"
  | .kwProc => "proc"
  | .kwIf => "if"
  | .kwThen => "then"
  | .kwElse => "else"
  | .kwAssert => "assert"
  | .kwZero => "zero?"
  | .kwInt => "int"
  | .kwBool => "bool"
  | .minus => "-"
  | .arrow => "->"
  | .openParen => "("
  | .closeParen => ")"
  | .comma => ","
  | .colon => ":"
  | .equals => "="
  | .number | .name | .finish => ""

inductive Piece where
  | blank
  | lexeme (kind : Token.Kind) (text : String)

namespace Piece

/-- A lexeme whose text is the one of its kind. -/
def fixed (kind : Token.Kind) : Piece := lexeme kind kind.fixedText

def text : Piece → String
  | blank => " "
  | lexeme _ text => text

def lexeme? : Piece → Option (Token.Kind × String)
  | blank => none
  | lexeme kind text => some (kind, text)

@[simp] theorem lexeme?_blank : blank.lexeme? = none := rfl

@[simp] theorem lexeme?_fixed (kind : Token.Kind) :
    (fixed kind).lexeme? = some (kind, kind.fixedText) := rfl

@[simp] theorem lexeme?_lexeme (kind : Token.Kind) (w : String) :
    (lexeme kind w).lexeme? = some (kind, w) := rfl

end Piece

def Token.lexeme (t : Token) : Token.Kind × String := (t.kind, t.text)

@[simp] theorem Token.lexeme_eq_iff {t : Token} {kind : Token.Kind} {w : String} :
    t.lexeme = (kind, w) ↔ t.kind = kind ∧ t.text = w := Prod.mk.injEq ..  ▸ Iff.rfl

/-! ## Layouts -/

def Ty.layout : Ty → List Piece
  | int => [.fixed .kwInt]
  | bool => [.fixed .kwBool]
  | arrow domain codomain =>
    .fixed .openParen :: (domain.layout ++ .blank :: .fixed .arrow :: .blank ::
      (codomain.layout ++ [.fixed .closeParen]))

def Expr.layout : Expr → List Piece
  | number text => [.lexeme .number text]
  | bool value => [.fixed (if value then .kwTrue else .kwFalse)]
  | negate operand =>
    .fixed .minus :: .fixed .openParen :: (operand.layout ++ [.fixed .closeParen])
  | subtract left right =>
    .fixed .minus :: .fixed .openParen :: (left.layout ++ .fixed .comma :: .blank ::
      (right.layout ++ [.fixed .closeParen]))
  | isZero operand =>
    .fixed .kwZero :: .fixed .openParen :: (operand.layout ++ [.fixed .closeParen])
  | ite guard thenBranch elseBranch =>
    .fixed .kwIf :: .blank :: (guard.layout ++ .blank :: .fixed .kwThen :: .blank ::
      (thenBranch.layout ++ .blank :: .fixed .kwElse :: .blank :: elseBranch.layout))
  | identifier name => [.lexeme .name name]
  | letIn name init body =>
    .fixed .kwLet :: .blank :: .lexeme .name name :: .blank :: .fixed .equals :: .blank ::
      (init.layout ++ .blank :: .fixed .kwIn :: .blank :: body.layout)
  | proc param paramType body =>
    .fixed .kwProc :: .blank :: .fixed .openParen :: .lexeme .name param :: .fixed .colon :: .blank ::
      (paramType.layout ++ .fixed .closeParen :: .blank :: body.layout)
  | apply fn arg =>
    .fixed .openParen :: (fn.layout ++ .blank :: (arg.layout ++ [.fixed .closeParen]))
  | letrec returnType name param paramType body letBody =>
    .fixed .kwLetrec :: .blank :: (returnType.layout ++ .blank :: .lexeme .name name ::
      .fixed .openParen :: .lexeme .name param :: .fixed .colon :: .blank ::
      (paramType.layout ++ .fixed .closeParen :: .blank ::
        (body.layout ++ .blank :: .fixed .kwIn :: .blank :: letBody.layout)))
  | assert guard body _ =>
    .fixed .kwAssert :: .blank :: (guard.layout ++ .blank :: .fixed .kwThen :: .blank :: body.layout)

def Ty.lexemes (t : Ty) : List (Token.Kind × String) := t.layout.filterMap Piece.lexeme?

def Expr.lexemes (e : Expr) : List (Token.Kind × String) := e.layout.filterMap Piece.lexeme?

theorem Ty.toList_render (t : Ty) : t.render.toList = t.layout.flatMap (·.text.toList) := by
  induction t with
  | int | bool => rfl
  | arrow domain codomain ihd ihc =>
      simp [layout, Piece.fixed, Piece.text, Token.Kind.fixedText, ihd, ihc]

theorem Expr.toList_render (e : Expr) : e.render.toList = e.layout.flatMap (·.text.toList) := by
  induction e with
  | bool value => cases value <;> simp [layout, Piece.fixed, Piece.text, Token.Kind.fixedText]
  | _ => simp [layout, Piece.fixed, Piece.text, Token.Kind.fixedText, Ty.toList_render, *]

/-! ## No two lexemes run together -/

namespace Piece

/-- The kinds of lexemes that neither go on a lexeme nor are gone on by one. -/
def looseKinds : List Token.Kind :=
  [.openParen, .closeParen, .comma, .colon, .equals, .arrow]

/-- Whether the piece neither goes on a lexeme nor is gone on by one. -/
def isLoose : Piece → Bool
  | blank => true
  | lexeme kind _ => looseKinds.contains kind

/-- One of two neighbours is loose. -/
def Apart (p q : Piece) : Prop := p.isLoose = true ∨ q.isLoose = true

end Piece

theorem Ty.isChain_layout (t : Ty) : t.layout.IsChain Piece.Apart := by
  induction t with
  | int | bool => exact .singleton _
  | arrow domain codomain ihd ihc =>
      simp [layout, List.isChain_append, List.isChain_cons, Piece.Apart, Piece.isLoose, Piece.looseKinds, Piece.fixed,
        ihd, ihc]

theorem Expr.isChain_layout (e : Expr) : e.layout.IsChain Piece.Apart := by
  induction e with
  | number | bool | identifier => exact .singleton _
  | _ =>
      simp [layout, List.isChain_append, List.isChain_cons, Piece.Apart, Piece.isLoose, Piece.looseKinds, Piece.fixed,
        Ty.isChain_layout, *]

/-! ## Reading a layout -/

namespace Piece

open Lexer

/-- The lexer takes the text for a lexeme of its kind. -/
def Lexes : Piece → Prop
  | blank => True
  | lexeme kind text => Lexeme kind (Text.units text) ∧ Text.ofUnits (Text.units text) = text

/-- The lexer takes every piece for what it is. -/
def AllLex (ps : List Piece) : Prop := ∀ p ∈ ps, p.Lexes

@[simp] theorem lexes_blank : blank.Lexes := trivial

@[simp] theorem allLex_nil : AllLex [] := fun _ h => nomatch h

@[simp] theorem allLex_cons {p : Piece} {ps : List Piece} : AllLex (p :: ps) ↔ p.Lexes ∧ AllLex ps :=
  List.forall_mem_cons

@[simp] theorem allLex_append {ps qs : List Piece} : AllLex (ps ++ qs) ↔ AllLex ps ∧ AllLex qs :=
  List.forall_mem_append

theorem lexes_fixed {kind : Token.Kind} (hnumber : kind ≠ .number) (hname : kind ≠ .name)
    (hfinish : kind ≠ .finish) : (fixed kind).Lexes := by
  have hsplit : ((Text.units kind.fixedText).head?.bind fun u =>
      splitToken? u (Text.units kind.fixedText).tail) = some (kind, Text.units kind.fixedText, []) ∧
      Text.ofUnits (Text.units kind.fixedText) = kind.fixedText := by
    cases kind <;> first | decide | contradiction
  obtain ⟨hsplit, htext⟩ := hsplit
  obtain ⟨u, -, hsplit⟩ := Option.bind_eq_some_iff.1 hsplit
  exact ⟨(splitToken?_sound hsplit).1, htext⟩

theorem lexes_number {text : String} (h : Text.isDigits text = true) :
    (lexeme .number text).Lexes := by
  obtain ⟨u, us, hunits, hu, hus, htext⟩ := Text.exists_units_of_isDigits h
  exact ⟨hunits ▸ .number hu hus, htext⟩

theorem lexes_name {text : String} (h : Text.isName text = true) : (lexeme .name text).Lexes := by
  simp only [Text.isName, Bool.and_eq_true, Bool.not_eq_true', List.contains_eq_mem,
    decide_eq_false_iff_not] at h
  obtain ⟨hword, hkeyword⟩ := h
  obtain ⟨u, us, hunits, hu, hus, htext⟩ := Text.exists_units_of_isWord hword
  have hkind : Token.Kind.ofWord (Text.ofUnits (u :: us)) = .name := by
    rw [← hunits, htext]
    rcases Token.Kind.ofWord_cases text with ⟨-, hname⟩ | hmem
    · exact hname
    · exact absurd (List.mem_map_of_mem hmem) hkeyword
  exact ⟨hunits ▸ hkind ▸ .word hu hus, htext⟩

/-- A lexeme of a loose kind is an arrow or another mark. -/
theorem loose_cases {kind : Token.Kind} {us : List UInt16} (h : Lexeme kind us)
    (hloose : looseKinds.contains kind = true) :
    us = [unit '-', unit '>'] ∨ ∃ u, us = [u] ∧ (u, kind) ∈ marks := by
  have hkeywords : ∀ p ∈ Token.keywords, looseKinds.contains p.2 = false := by decide
  cases h with
  | number | minus => cases hloose
  | word hu hus =>
      rcases Token.Kind.ofWord_cases (Text.ofUnits (_ :: _)) with ⟨-, hname⟩ | hmem
      · rw [hname] at hloose
        cases hloose
      · rw [hkeywords _ hmem] at hloose
        cases hloose
  | arrow => exact .inl rfl
  | mark hmark => exact .inr ⟨_, rfl, hmark⟩

/-- What is no part of a word goes on a minus sign at most. -/
theorem goesOn_eq_false {v : UInt16} (hpart : isWordPart v = false) (harrow : v ≠ unit '>')
    (us : List UInt16) : goesOn us v = false := by
  have hdigit : isDigit v = false := by
    rw [Bool.eq_false_iff] at hpart ⊢
    exact fun h => hpart (isWordPart_iff.2 (.inr (.inl h)))
  cases us with
  | nil => rfl
  | cons u us => simp [goesOn, hpart, hdigit, harrow]

/-- A lexeme ends where a piece begins if one of the two is loose. -/
theorem longest_of_apart {kind : Token.Kind} {w : String} {q : Piece} (hw : (lexeme kind w).Lexes)
    (hq : q.Lexes) (hapart : Apart (lexeme kind w) q) (rest : List UInt16) :
    Longest (Text.units w) (Text.units q.text ++ rest) := by
  intro v hv
  rcases hapart with hloose | hloose
  · rcases loose_cases hw.1 hloose with harrow | ⟨u, hmark, hkind⟩
    · rw [harrow]
      exact goesOn_arrow v
    · rw [hmark]
      exact goesOn_mark hkind v
  · cases q with
    | blank =>
        cases hv
        exact goesOn_eq_false (by decide) (by decide) _
    | lexeme kind' w' =>
        have hmarks : ∀ m ∈ marks, isWordPart m.1 = false ∧ m.1 ≠ unit '>' := by decide
        simp only [Piece.text] at hv
        rcases loose_cases hq.1 hloose with harrow | ⟨u, hmark, hkind⟩
        · rw [harrow] at hv
          cases hv
          exact goesOn_eq_false (by decide) (by decide) _
        · rw [hmark] at hv
          cases hv
          obtain ⟨hpart, hne⟩ := hmarks _ hkind
          exact goesOn_eq_false hpart hne _

theorem Lexes.units_ne_nil {p : Piece} (h : p.Lexes) : Text.units p.text ≠ [] := by
  cases p with
  | blank => decide
  | lexeme kind w =>
      obtain ⟨hlexeme, -⟩ := h
      intro hnil
      simp only [text] at hnil
      rw [hnil] at hlexeme
      cases hlexeme

end Piece

/-- The units of a sequence of pieces. -/
def layoutUnits (ps : List Piece) : List UInt16 := ps.flatMap (Text.units ·.text)

theorem length_le_layoutUnits {ps : List Piece} (h : Piece.AllLex ps) :
    ps.length ≤ (layoutUnits ps).length := by
  induction ps with
  | nil => exact Nat.le_refl 0
  | cons p ps ih =>
      obtain ⟨hp, hps⟩ := Piece.allLex_cons.1 h
      have hpos : 0 < (Text.units p.text).length := List.length_pos_iff.2 hp.units_ne_nil
      have hrest := ih hps
      simp only [layoutUnits, List.flatMap_cons, List.length_append, List.length_cons] at hrest ⊢
      omega

/-- The lexer reads a sequence of pieces on one line as the lexemes among them. -/
theorem Cursor.readUpTo_layout {ps : List Piece} (hlexes : Piece.AllLex ps)
    (hchain : ps.IsChain Piece.Apart) {fuel : Nat} (hfuel : ps.length < fuel) (start : Position) :
    ∃ s c, readUpTo fuel ⟨layoutUnits ps, start⟩ = (.ok s, c) ∧
      s.pending.map Token.lexeme = ps.filterMap Piece.lexeme? ∧
      ∀ t ∈ s.pending, t.position.line = start.line := by
  induction ps generalizing fuel start with
  | nil =>
      obtain _ | fuel := fuel
      · exact absurd hfuel (Nat.not_lt_zero _)
      exact ⟨_, _, rfl, rfl, fun t ht => nomatch ht⟩
  | cons p ps ih =>
      obtain _ | fuel := fuel
      · exact absurd hfuel (Nat.not_lt_zero _)
      obtain ⟨hp, hps⟩ := Piece.allLex_cons.1 hlexes
      obtain ⟨hnext, hrest⟩ := List.isChain_cons.1 hchain
      cases p with
      | blank =>
          obtain ⟨s, c, hread, hpending, hline⟩ :=
            ih hps hrest (Nat.lt_of_succ_lt hfuel) (start.after [Lexer.unit ' '])
          have hunits : layoutUnits (.blank :: ps) = [Lexer.unit ' '] ++ layoutUnits ps := rfl
          have hgap : Lexer.Gap (layoutUnits ps) [Lexer.unit ' '] := .space (by decide) .nil
          refine ⟨s, c, ?_, hpending, hline⟩
          rw [← hread, readUpTo, readUpTo, hunits, next_gap hgap]
      | lexeme kind w =>
          have hlongest : Lexer.Longest (Text.units w) (layoutUnits ps) := by
            cases ps with
            | nil =>
                intro v hv
                cases hv
            | cons q qs =>
                exact Piece.longest_of_apart hp (hps q List.mem_cons_self) (hnext q rfl) (layoutUnits qs)
          obtain ⟨s, c, hread, hpending, hline⟩ :=
            ih hps hrest (Nat.lt_of_succ_lt_succ hfuel) (start.after (Text.units w))
          have hunits : layoutUnits (.lexeme kind w :: ps) = Text.units w ++ layoutUnits ps := rfl
          rw [Position.after_line hp.1.ne_lineFeed] at hline
          refine ⟨s.push ⟨kind, w, start⟩, c, ?_, ?_, ?_⟩
          · rw [readUpTo, hunits]
            simp only [next_lexeme hp.1 hlongest, hread, hp.2]
          · rw [TokenStream.pending_push, List.map_cons, hpending]
            rfl
          · exact List.forall_mem_cons.2 ⟨rfl, hline⟩

theorem Expr.units_render (e : Expr) : Text.units e.render = layoutUnits e.layout := by
  rw [Text.units, toList_render, List.flatMap_assoc]
  rfl

/-- The lexer reads a printed expression on one line as the lexemes of its layout. -/
theorem Expr.tokenize_render {e : Expr} (h : Piece.AllLex e.layout) :
    ∃ s, tokenize e.render = .ok s ∧ s.pending.map Token.lexeme = e.lexemes ∧
      ∀ t ∈ s.pending, t.position.line = 1 := by
  obtain ⟨s, c, hread, hpending, hline⟩ := Cursor.readUpTo_layout h e.isChain_layout
    (Nat.lt_succ_of_le (length_le_layoutUnits h)) .start
  refine ⟨s, ?_, hpending, hline⟩
  rw [tokenize, Cursor.read, Cursor.ofText, Cursor.ofUnits, units_render, hread]

end TypedLet
