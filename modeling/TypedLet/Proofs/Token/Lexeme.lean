import Mathlib.Data.List.TakeWhile
import TypedLet.Proofs.Token.Words

/-!
# Lexemes

A lexeme is the text of a token: a mark, a run of digits, or a word. A token is split off a text as the
longest lexeme at its front, so what the lexer makes a token of is always a lexeme of the kind that the
token has.
-/

namespace TypedLet

namespace Lexer

/-- The marks of one unit that no longer mark starts with. -/
def marks : List (UInt16 × Token.Kind) :=
  [(unit '(', .openParen), (unit ')', .closeParen), (unit ',', .comma), (unit ':', .colon),
    (unit '=', .equals)]

/-- The units are the text of a token of that kind. -/
inductive Lexeme : Token.Kind → List UInt16 → Prop where
  | number {u : UInt16} {us : List UInt16} :
      isDigit u = true → (∀ v ∈ us, isDigit v = true) → Lexeme .number (u :: us)
  | word {u : UInt16} {us : List UInt16} :
      isWordStart u = true → (∀ v ∈ us, isWordPart v = true) →
      Lexeme (.ofWord (Text.ofUnits (u :: us))) (u :: us)
  | minus : Lexeme .minus [unit '-']
  | arrow : Lexeme .arrow [unit '-', unit '>']
  | mark {u : UInt16} {kind : Token.Kind} : (u, kind) ∈ marks → Lexeme kind [u]

theorem Lexeme.length_pos {kind : Token.Kind} {us : List UInt16} (h : Lexeme kind us) :
    0 < us.length := by
  cases h <;> exact Nat.succ_pos _

/-- Whether the lexeme would be a longer one with the unit behind it. -/
def goesOn (lexeme : List UInt16) (v : UInt16) : Bool :=
  match lexeme with
  | [] => false
  | u :: us =>
    (isDigit u && isDigit v) || (isWordStart u && isWordPart v) ||
      (u == unit '-' && us.isEmpty && v == unit '>')

/-- The lexeme ends where the rest begins. -/
def Longest (lexeme rest : List UInt16) : Prop :=
  ∀ v, rest.head? = some v → goesOn lexeme v = false

/-! ## What goes on a lexeme -/

theorem not_isWordStart_of_isDigit {u : UInt16} (h : isDigit u = true) : isWordStart u = false := by
  rw [Bool.eq_false_iff, Ne, isWordStart_iff]
  rw [isDigit_iff] at h
  omega

theorem not_isDigit_of_isWordStart {u : UInt16} (h : isWordStart u = true) : isDigit u = false := by
  rw [Bool.eq_false_iff, Ne, isDigit_iff]
  rw [isWordStart_iff] at h
  omega

/-- The lexer knows these marks and no others. -/
theorem markKind?_eq_some_iff {u : UInt16} {kind : Token.Kind} :
    markKind? u = some kind ↔ (u, kind) ∈ marks := by
  constructor
  · intro h
    unfold markKind? at h
    repeat' split at h
    all_goals cases h
    all_goals subst u; decide
  · intro h
    have hmarks : ∀ m ∈ marks, markKind? m.1 = some m.2 := by decide
    exact hmarks _ h

/-- A mark is no minus sign, and starts neither a number nor a word. -/
theorem apart_of_mem_marks {u : UInt16} {kind : Token.Kind} (h : (u, kind) ∈ marks) :
    isDigit u = false ∧ isWordStart u = false ∧ u ≠ unit '-' := by
  have hmarks : ∀ m ∈ marks, isDigit m.1 = false ∧ isWordStart m.1 = false ∧ m.1 ≠ unit '-' := by
    decide
  exact hmarks _ h

theorem goesOn_number {u : UInt16} (hu : isDigit u = true) (us : List UInt16) (v : UInt16) :
    goesOn (u :: us) v = isDigit v := by
  have hminus : u ≠ unit '-' := by
    rintro rfl
    exact absurd hu (by decide)
  simp [goesOn, hu, not_isWordStart_of_isDigit hu, hminus]

theorem goesOn_word {u : UInt16} (hu : isWordStart u = true) (us : List UInt16) (v : UInt16) :
    goesOn (u :: us) v = isWordPart v := by
  have hminus : u ≠ unit '-' := by
    rintro rfl
    exact absurd hu (by decide)
  simp [goesOn, hu, not_isDigit_of_isWordStart hu, hminus]

theorem goesOn_minus (v : UInt16) : goesOn [unit '-'] v = (v == unit '>') := by
  have hdigit : isDigit (unit '-') = false := by decide
  have hword : isWordStart (unit '-') = false := by decide
  simp [goesOn, hdigit, hword]

theorem goesOn_arrow (v : UInt16) : goesOn [unit '-', unit '>'] v = false := by
  have hdigit : isDigit (unit '-') = false := by decide
  have hword : isWordStart (unit '-') = false := by decide
  simp [goesOn, hdigit, hword]

theorem goesOn_mark {u : UInt16} {kind : Token.Kind} (h : (u, kind) ∈ marks) (v : UInt16) :
    goesOn [u] v = false := by
  obtain ⟨hdigit, hword, hminus⟩ := apart_of_mem_marks h
  simp [goesOn, hdigit, hword, hminus]

/-! ## Splitting off the longest lexeme -/

theorem dropWhile_head? {p : UInt16 → Bool} {us : List UInt16} {v : UInt16}
    (h : (us.dropWhile p).head? = some v) : p v = false := by
  have hnot := List.head?_dropWhile_not p us
  rw [h] at hnot
  exact hnot

/-- A run of units of a class ends where the class does. -/
theorem takeWhile_append_stop {p : UInt16 → Bool} {us rest : List UInt16} (hus : ∀ v ∈ us, p v = true)
    (hrest : ∀ v, rest.head? = some v → p v = false) :
    (us ++ rest).takeWhile p = us ∧ (us ++ rest).dropWhile p = rest := by
  rw [List.takeWhile_append_of_pos hus, List.dropWhile_append_of_pos hus]
  cases rest with
  | nil => simp
  | cons v rest => simp [hrest v rfl]

theorem splitToken?_sound {u : UInt16} {us lexeme rest : List UInt16} {kind : Token.Kind}
    (h : splitToken? u us = some (kind, lexeme, rest)) : Lexeme kind lexeme ∧ Longest lexeme rest := by
  unfold splitToken? at h
  split at h
  · rename_i hdigit
    simp only [Option.some.injEq, Prod.mk.injEq] at h
    obtain ⟨rfl, rfl, rfl⟩ := h
    refine ⟨.number hdigit fun v hv => List.mem_takeWhile_imp hv, fun v hv => ?_⟩
    rw [goesOn_number hdigit]
    exact dropWhile_head? hv
  split at h
  · rename_i hword
    simp only [Option.some.injEq, Prod.mk.injEq] at h
    obtain ⟨rfl, rfl, rfl⟩ := h
    refine ⟨.word hword fun v hv => List.mem_takeWhile_imp hv, fun v hv => ?_⟩
    rw [goesOn_word hword]
    exact dropWhile_head? hv
  split at h
  · rename_i hminus
    split at h
    · simp only [Option.some.injEq, Prod.mk.injEq] at h
      obtain ⟨rfl, rfl, rfl⟩ := h
      exact ⟨hminus ▸ .arrow, fun v _ => hminus ▸ goesOn_arrow v⟩
    · rename_i hhead
      simp only [Option.some.injEq, Prod.mk.injEq] at h
      obtain ⟨rfl, rfl, rfl⟩ := h
      refine ⟨hminus ▸ .minus, fun v hv => ?_⟩
      rw [hminus, goesOn_minus, beq_eq_false_iff_ne]
      rintro rfl
      exact hhead hv
  · simp only [Option.map_eq_some_iff, Prod.mk.injEq] at h
    obtain ⟨_, hkind, rfl, rfl, rfl⟩ := h
    have hmark := markKind?_eq_some_iff.1 hkind
    exact ⟨.mark hmark, fun v _ => goesOn_mark hmark v⟩

theorem splitToken?_complete {u : UInt16} {us lexeme rest : List UInt16} {kind : Token.Kind}
    (hlexeme : Lexeme kind lexeme) (happend : lexeme ++ rest = u :: us)
    (hlongest : Longest lexeme rest) : splitToken? u us = some (kind, lexeme, rest) := by
  cases hlexeme with
  | number hu hvs =>
      rw [List.cons_append, List.cons.injEq] at happend
      obtain ⟨rfl, rfl⟩ := happend
      have hstop : ∀ v, rest.head? = some v → isDigit v = false := fun v hv => by
        rw [← goesOn_number hu]
        exact hlongest v hv
      obtain ⟨htake, hdrop⟩ := takeWhile_append_stop hvs hstop
      rw [splitToken?, if_pos hu, htake, hdrop]
  | word hu hvs =>
      rw [List.cons_append, List.cons.injEq] at happend
      obtain ⟨rfl, rfl⟩ := happend
      have hstop : ∀ v, rest.head? = some v → isWordPart v = false := fun v hv => by
        rw [← goesOn_word hu]
        exact hlongest v hv
      obtain ⟨htake, hdrop⟩ := takeWhile_append_stop hvs hstop
      have hdigit := not_isDigit_of_isWordStart hu
      rw [splitToken?, if_neg (by rw [hdigit]; decide), if_pos hu, htake, hdrop]
  | minus =>
      rw [List.cons_append, List.nil_append, List.cons.injEq] at happend
      obtain ⟨rfl, rfl⟩ := happend
      have hstop : rest.head? ≠ some (unit '>') := fun h => by
        have hnot := hlongest _ h
        rw [goesOn_minus, beq_self_eq_true] at hnot
        cases hnot
      rw [splitToken?, if_neg (by decide), if_neg (by decide), if_pos rfl, if_neg hstop]
  | arrow =>
      rw [List.cons_append, List.cons_append, List.nil_append, List.cons.injEq] at happend
      obtain ⟨rfl, rfl⟩ := happend
      have hhead : (unit '>' :: rest).head? = some (unit '>') := rfl
      rw [splitToken?, if_neg (by decide), if_neg (by decide), if_pos rfl, if_pos hhead]
      rfl
  | mark hmark =>
      rw [List.cons_append, List.nil_append, List.cons.injEq] at happend
      obtain ⟨rfl, rfl⟩ := happend
      obtain ⟨hdigit, hword, hminus⟩ := apart_of_mem_marks hmark
      rw [splitToken?, if_neg (by rw [hdigit]; decide), if_neg (by rw [hword]; decide), if_neg hminus,
        markKind?_eq_some_iff.2 hmark]
      rfl

end Lexer

/-! ## Kinds and texts -/

/-- A word is a name, or it is a keyword and has its kind. -/
theorem Token.Kind.ofWord_cases (w : String) :
    (w ∉ Token.keywords.map Prod.fst ∧ ofWord w = .name) ∨ (w, ofWord w) ∈ Token.keywords := by
  unfold ofWord
  cases h : Token.keywords.lookup w with
  | none =>
      refine .inl ⟨fun hw => ?_, rfl⟩
      obtain ⟨p, hp, rfl⟩ := List.mem_map.1 hw
      simpa using List.lookup_eq_none_iff.1 h p hp
  | some kind =>
      obtain ⟨before, behind, hsplit, -⟩ := List.lookup_eq_some_iff.1 h
      exact .inr (hsplit ▸ List.mem_append_right before List.mem_cons_self)

theorem Token.Kind.ofWord_eq_name {w : String} (h : ofWord w = .name) :
    w ∉ Token.keywords.map Prod.fst := by
  have hkeywords : ∀ p ∈ Token.keywords, p.2 ≠ .name := by decide
  rcases ofWord_cases w with ⟨hw, -⟩ | hw
  · exact hw
  · exact absurd h (hkeywords _ hw)

namespace Lexer

open Text

theorem Lexeme.kind_ne_finish {kind : Token.Kind} {us : List UInt16} (h : Lexeme kind us) :
    kind ≠ .finish := by
  have hmarks : ∀ m ∈ marks, m.2 ≠ .finish := by decide
  have hkeywords : ∀ p ∈ Token.keywords, p.2 ≠ .finish := by decide
  cases h with
  | number | minus | arrow => decide
  | word hu hus =>
      rcases Token.Kind.ofWord_cases (ofUnits (_ :: _)) with ⟨-, hname⟩ | hmem
      · rw [hname]
        decide
      · exact hkeywords _ hmem
  | mark hmark => exact hmarks _ hmark

theorem Lexeme.isDigits {us : List UInt16} (h : Lexeme .number us) : isDigits (ofUnits us) = true := by
  have hmarks : ∀ m ∈ marks, m.2 ≠ .number := by decide
  have hkeywords : ∀ p ∈ Token.keywords, p.2 ≠ .number := by decide
  generalize hkind : Token.Kind.number = kind at h
  cases h with
  | number hu hus =>
      simp only [Text.isDigits, ofUnits, String.toList_ofList, List.map_cons, List.isEmpty_cons,
        Bool.not_false, Bool.true_and, List.all_cons, Bool.and_eq_true, isDigit_unitChar, List.all_map,
        List.all_eq_true, Function.comp_apply]
      exact ⟨hu, hus⟩
  | word hu hus =>
      rcases Token.Kind.ofWord_cases (ofUnits (_ :: _)) with ⟨-, hname⟩ | hmem
      · rw [hname] at hkind
        cases hkind
      · exact absurd hkind.symm (hkeywords _ hmem)
  | minus | arrow => cases hkind
  | mark hmark => exact absurd hkind.symm (hmarks _ hmark)

theorem Lexeme.isName {us : List UInt16} (h : Lexeme .name us) : isName (ofUnits us) = true := by
  have hmarks : ∀ m ∈ marks, m.2 ≠ .name := by decide
  generalize hkind : Token.Kind.name = kind at h
  cases h with
  | number | minus | arrow => cases hkind
  | word hu hus =>
      have hkeyword := Token.Kind.ofWord_eq_name hkind.symm
      simp only [Text.isName, isWord, Bool.and_eq_true, Bool.not_eq_true', List.contains_eq_mem,
        decide_eq_false_iff_not]
      refine ⟨?_, hkeyword⟩
      simp only [ofUnits, String.toList_ofList, List.map_cons, isNameStart_unitChar, Bool.and_eq_true,
        List.all_map, List.all_eq_true, Function.comp_apply, isNamePart_unitChar]
      exact ⟨hu, hus⟩
  | mark hmark => exact absurd hkind.symm (hmarks _ hmark)

/-- The lexemes of a keyword's kind are the keyword alone. -/
theorem Lexeme.kind_eq_iff_of_keyword {kind : Token.Kind} {us : List UInt16} (h : Lexeme kind us)
    {p : String × Token.Kind} (hp : p ∈ Token.keywords) : kind = p.2 ↔ ofUnits us = p.1 := by
  have hkeywords : ∀ p ∈ Token.keywords, ∀ q ∈ Token.keywords, q.2 = p.2 ↔ q.1 = p.1 := by decide
  have hnames : ∀ p ∈ Token.keywords, p.2 ≠ .name := by decide
  have hdigits : ∀ p ∈ Token.keywords, p.2 ≠ .number ∧ Text.isDigits p.1 = false := by decide
  have hsigns : ∀ p ∈ Token.keywords, p.2 ≠ .minus ∧ p.1 ≠ ofUnits [unit '-'] ∧
      p.2 ≠ .arrow ∧ p.1 ≠ ofUnits [unit '-', unit '>'] := by decide
  have hmarks : ∀ p ∈ Token.keywords, ∀ m ∈ marks, m.2 ≠ p.2 ∧ ofUnits [m.1] ≠ p.1 := by decide
  cases h with
  | number hu hus =>
      have htext := (Lexeme.number hu hus).isDigits
      refine iff_of_false (fun hkind => (hdigits p hp).1 hkind.symm) fun hword => ?_
      rw [hword, (hdigits p hp).2] at htext
      cases htext
  | word hu hus =>
      rcases Token.Kind.ofWord_cases (ofUnits (_ :: _)) with ⟨hnot, hname⟩ | hmem
      · rw [hname]
        refine iff_of_false (fun hkind => hnames p hp hkind.symm) fun hword => hnot ?_
        exact hword ▸ List.mem_map_of_mem hp
      · exact hkeywords p hp _ hmem
  | minus =>
      obtain ⟨hkind, htext, -⟩ := hsigns p hp
      exact iff_of_false hkind.symm htext.symm
  | arrow =>
      obtain ⟨-, -, hkind, htext⟩ := hsigns p hp
      exact iff_of_false hkind.symm htext.symm
  | mark hmark =>
      obtain ⟨hkind, htext⟩ := hmarks p hp _ hmark
      exact iff_of_false hkind htext

/-! ## Where lexemes stand -/

/-- The units that a gap starts with. -/
def gapMarks : List UInt16 :=
  [unit ' ', unit '\t', unit '\r', Position.lineFeed, commentMark]

theorem mem_gapMarks {u : UInt16} : u ∈ gapMarks ↔ isSpace u = true ∨ u = commentMark := by
  simp [gapMarks, isSpace, or_assoc]

theorem apart_of_mem_gapMarks {u : UInt16} (h : u ∈ gapMarks) :
    isDigit u = false ∧ isWordStart u = false ∧ isWordPart u = false ∧
      u ∉ marks.map Prod.fst := by
  simp only [gapMarks, List.mem_cons, List.not_mem_nil, or_false] at h
  rcases h with rfl | rfl | rfl | rfl | rfl <;> decide

theorem Lexeme.not_mem_gapMarks {kind : Token.Kind} {us : List UInt16} (h : Lexeme kind us) :
    ∀ u ∈ us, u ∉ gapMarks := by
  intro v hv hgap
  obtain ⟨hdigit, hword, hpart, hnot⟩ := apart_of_mem_gapMarks hgap
  cases h with
  | number hu hus =>
      rcases List.mem_cons.1 hv with rfl | hv
      · rw [hdigit] at hu; cases hu
      · rw [hus v hv] at hdigit; cases hdigit
  | word hu hus =>
      rcases List.mem_cons.1 hv with rfl | hv
      · rw [hword] at hu; cases hu
      · rw [hus v hv] at hpart; cases hpart
  | minus =>
      rw [List.mem_singleton.1 hv] at hgap
      exact absurd hgap (by decide)
  | arrow =>
      simp only [List.mem_cons, List.not_mem_nil, or_false] at hv
      rcases hv with rfl | rfl <;> exact absurd hgap (by decide)
  | mark hmark =>
      rw [List.mem_singleton.1 hv] at hnot
      exact hnot (List.mem_map_of_mem hmark)

theorem Lexeme.ne_lineFeed {kind : Token.Kind} {us : List UInt16} (h : Lexeme kind us) :
    ∀ u ∈ us, u ≠ Position.lineFeed :=
  fun u hu hfeed => h.not_mem_gapMarks u hu (hfeed ▸ by decide)

theorem splitGap_of_not_mem {u : UInt16} (h : u ∉ gapMarks) (us : List UInt16) :
    splitGap false (u :: us) = ([], u :: us) := by
  rw [mem_gapMarks, not_or] at h
  simp [splitGap, h.1, h.2]

theorem splitGap_space {u : UInt16} (h : isSpace u = true) (us : List UInt16) :
    splitGap false (u :: us) = (u :: (splitGap false us).1, (splitGap false us).2) := by
  have hmark : (u == commentMark) = false := by
    rw [beq_eq_false_iff_ne]
    rintro rfl
    exact absurd h (by decide)
  simp [splitGap, h, hmark]

end Lexer

theorem Position.after_line {us : List UInt16} (h : ∀ u ∈ us, u ≠ lineFeed) (p : Position) :
    (p.after us).line = p.line := by
  induction us generalizing p with
  | nil => rfl
  | cons u us ih =>
      rw [after_cons, ih fun v hv => h v (List.mem_cons_of_mem u hv), next,
        if_neg (h u List.mem_cons_self)]

namespace Cursor

open Lexer

variable {kind : Token.Kind} {lexeme rest : List UInt16} {p : Position}

/-! ## Reading lexemes -/

/-- A lexeme at the front that ends there is the next token. -/
theorem next_lexeme (h : Lexeme kind lexeme) (hlongest : Longest lexeme rest) :
    next ⟨lexeme ++ rest, p⟩ =
      .token ⟨kind, Text.ofUnits lexeme, p⟩ ⟨rest, p.after lexeme⟩ := by
  obtain ⟨u, us, rfl⟩ : ∃ u us, lexeme = u :: us := by
    cases h <;> exact ⟨_, _, rfl⟩
  have hgap : splitGap false (u :: us ++ rest) = ([], u :: (us ++ rest)) :=
    splitGap_of_not_mem (h.not_mem_gapMarks u List.mem_cons_self) (us ++ rest)
  have hsplit : splitToken? u (us ++ rest) = some (kind, u :: us, rest) :=
    splitToken?_complete h rfl hlongest
  simp only [next, hgap, Position.after_nil, hsplit]

theorem next_eq_token {c behind : Cursor} {t : Token} (h : c.next = .token t behind) :
    ∃ us, Lexeme t.kind us ∧ t.text = Text.ofUnits us := by
  unfold next at h
  dsimp only at h
  split at h
  · cases h
  · split at h
    · rename_i hsplit
      cases h
      exact ⟨_, (splitToken?_sound hsplit).1, rfl⟩
    · cases h

theorem readUpTo_lexemes {fuel : Nat} {c : Cursor} {s : TokenStream}
    (h : (c.readUpTo fuel).1 = .ok s) :
    ∀ t ∈ s.pending, ∃ us, Lexeme t.kind us ∧ t.text = Text.ofUnits us := by
  induction fuel generalizing c s with
  | zero =>
      cases h
      exact fun t ht => nomatch ht
  | succ fuel ih =>
      unfold readUpTo at h
      split at h
      · cases h
        exact fun t ht => nomatch ht
      · cases h
      · rename_i t behind hnext
        split at h
        · rename_i r _ hread
          cases h
          intro t' ht'
          rcases List.mem_cons.1 ht' with rfl | ht'
          · exact next_eq_token hnext
          · exact ih (by rw [hread]) t' ht'
        · cases h

end Cursor

end TypedLet
