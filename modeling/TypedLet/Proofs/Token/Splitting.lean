import TypedLet.Proofs.Token.Lexeme

/-!
# Splitting a text into gaps and lexemes

A text has tokens when it is a gap, a lexeme, a gap, and so on up to a last gap, where each lexeme is as
long as it can be (`Lexer.Splits`). Nothing in this says how the text is read: gaps are told by their
units, positions by the units in front, and kinds by the texts of tokens. The lexer is shown to find the
split where there is one. Where there is none, it names the first unit that neither goes on with what
stands in front of it nor starts a gap or a lexeme.
-/

namespace TypedLet

/-! ## Positions -/

namespace Position

/-- The position behind a text: its line counts the line feeds, its column the units since the last
one. -/
def behind (us : List UInt16) : Position :=
  ⟨1 + us.count lineFeed, 1 + (us.reverse.takeWhile (· != lineFeed)).length⟩

theorem behind_concat (us : List UInt16) (u : UInt16) : behind (us ++ [u]) = (behind us).next u := by
  by_cases hu : u = lineFeed
  · simp [behind, next, hu, List.count_append, Int.add_assoc]
  · simp [behind, next, hu, List.count_append, Int.add_assoc]

theorem after_behind (us vs : List UInt16) : (behind us).after vs = behind (us ++ vs) := by
  induction vs generalizing us with
  | nil => rw [after_nil, List.append_nil]
  | cons v vs ih => rw [after_cons, ← behind_concat, ih, List.append_assoc, List.singleton_append]

end Position

namespace Lexer

/-! ## Gaps -/

/-- The units are a gap in front of the rest: blanks, and comments that end only where a line or the
text does. -/
inductive Gap (rest : List UInt16) : List UInt16 → Prop where
  | nil : Gap rest []
  | space {u : UInt16} {us : List UInt16} : isSpace u = true → Gap rest us → Gap rest (u :: us)
  | comment {body us : List UInt16} : (∀ v ∈ body, v ≠ Position.lineFeed) →
      (∀ v, (us ++ rest).head? = some v → v = Position.lineFeed) → Gap rest us →
      Gap rest (commentMark :: (body ++ us))

/-- Inside a comment everything up to the end of the line belongs to the gap. -/
theorem splitGap_comment {body tail : List UInt16} (hbody : ∀ v ∈ body, v ≠ Position.lineFeed)
    (htail : ∀ v, tail.head? = some v → v = Position.lineFeed) :
    splitGap true (body ++ tail) = (body ++ (splitGap false tail).1, (splitGap false tail).2) := by
  induction body with
  | nil =>
      cases tail with
      | nil => rfl
      | cons v tail =>
          rw [htail v rfl]
          rfl
  | cons v body ih =>
      have hv : (v != Position.lineFeed) = true := bne_iff_ne.2 (hbody v List.mem_cons_self)
      have hrest := ih fun w hw => hbody w (List.mem_cons_of_mem v hw)
      simp [splitGap, hv, hrest]

theorem splitGap_commentMark (us : List UInt16) :
    splitGap false (commentMark :: us) =
      (commentMark :: (splitGap true us).1, (splitGap true us).2) := by
  simp [splitGap]

/-- A gap in front is split off, whatever gap the rest starts with. -/
theorem splitGap_gap {gap rest : List UInt16} (hgap : Gap rest gap) :
    splitGap false (gap ++ rest) = (gap ++ (splitGap false rest).1, (splitGap false rest).2) := by
  induction hgap with
  | nil => rfl
  | space hu _ ih => rw [List.cons_append, splitGap_space hu, ih, List.cons_append]
  | comment hbody hend _ ih =>
      rw [List.cons_append, List.append_assoc, splitGap_commentMark, splitGap_comment hbody hend, ih,
        List.cons_append, List.append_assoc]

theorem splitGap_sound (us : List UInt16) :
    Gap (splitGap false us).2 (splitGap false us).1 ∧
      ∀ v, (splitGap false us).2.head? = some v → v ∉ gapMarks := by
  induction hn : us.length using Nat.strongRecOn generalizing us with
  | ind n ih =>
      subst hn
      cases us with
      | nil => exact ⟨.nil, fun v hv => nomatch hv⟩
      | cons u us =>
          by_cases hu : u ∈ gapMarks
          · rcases mem_gapMarks.1 hu with hspace | rfl
            · rw [splitGap_space hspace]
              obtain ⟨hgap, hrest⟩ := ih us.length (Nat.lt_succ_self _) us rfl
              exact ⟨.space hspace hgap, hrest⟩
            · -- The comment goes up to the line feed, and the gap goes on behind it.
              let body := us.takeWhile (· != Position.lineFeed)
              let tail := us.dropWhile (· != Position.lineFeed)
              have hbody : ∀ v ∈ body, v ≠ Position.lineFeed := fun v hv =>
                bne_iff_ne.1 (List.mem_takeWhile_imp (p := (· != Position.lineFeed)) hv)
              have htail : ∀ v, tail.head? = some v → v = Position.lineFeed := fun v hv =>
                bne_eq_false_iff_eq.1 (dropWhile_head? (p := (· != Position.lineFeed)) hv)
              have hsplit := splitGap_comment hbody htail
              rw [List.takeWhile_append_dropWhile] at hsplit
              rw [splitGap_commentMark, hsplit]
              have hlength : tail.length ≤ us.length := (List.dropWhile_sublist _).length_le
              obtain ⟨hgap, hrest⟩ := ih tail.length (Nat.lt_succ_of_le hlength) tail rfl
              refine ⟨.comment hbody (fun v hv => htail v ?_) hgap, hrest⟩
              rwa [splitGap_append] at hv
          · rw [splitGap_of_not_mem hu]
            refine ⟨.nil, fun v hv => ?_⟩
            rw [List.head?_cons, Option.some.injEq] at hv
            exact hv ▸ hu

/-! ## Units that start nothing -/

/-- The unit starts neither a gap nor a lexeme. -/
def Stray (u : UInt16) : Prop :=
  u ∉ gapMarks ∧ ∀ kind us, ¬ Lexeme kind (u :: us)

theorem splitToken?_eq_none {u : UInt16} {us : List UInt16}
    (h : ∀ kind us, ¬ Lexeme kind (u :: us)) : splitToken? u us = none := by
  cases hsplit : splitToken? u us with
  | none => rfl
  | some parts =>
      obtain ⟨kind, lexeme, rest⟩ := parts
      have hlexeme := (splitToken?_sound hsplit).1
      cases lexeme with
      | nil => exact absurd rfl (lexeme_ne_nil hsplit)
      | cons v lexeme =>
          rw [(List.cons.inj (splitToken?_append hsplit)).1] at hlexeme
          exact absurd hlexeme (h kind lexeme)

theorem not_lexeme_of_splitToken?_eq_none {u : UInt16} {us : List UInt16}
    (h : splitToken? u us = none) (kind : Token.Kind) (vs : List UInt16) : ¬ Lexeme kind (u :: vs) := by
  intro hlexeme
  unfold splitToken? at h
  split at h
  · cases h
  split at h
  · cases h
  split at h
  · split at h <;> cases h
  rename_i hdigit hword hminus
  rw [Option.map_eq_none_iff] at h
  cases hlexeme with
  | number hu _ => exact hdigit hu
  | word hu _ => exact hword hu
  | minus | arrow => exact hminus rfl
  | mark hmark => rw [markKind?_eq_some_iff.2 hmark] at h; cases h

/-! ## Kinds by texts -/

/-- The marks and what they are. -/
def signs : List (String × Token.Kind) :=
  [("(", .openParen), (")", .closeParen), (",", .comma), (":", .colon), ("=", .equals),
    ("-", .minus), ("->", .arrow)]

end Lexer

/-- The kind of a token with this text. -/
def Token.Kind.ofText (text : String) : Token.Kind :=
  if Text.isDigits text then .number else (Lexer.signs.lookup text).getD (.ofWord text)

namespace Lexer

theorem Lexeme.kind_eq_ofText {kind : Token.Kind} {us : List UInt16} (h : Lexeme kind us) :
    kind = .ofText (Text.ofUnits us) := by
  cases h with
  | number hu hus => rw [Token.Kind.ofText, if_pos (Lexeme.number hu hus).isDigits]
  | word hu hus =>
      have hsigns : ∀ p ∈ signs, p.1.toList.head?.all Text.isNameStart = false := by decide
      rename_i u us
      have hstart : Text.isNameStart (Text.unitChar u) = true := by
        rw [Text.isNameStart_unitChar]
        exact hu
      have hdigits : Text.isDigits (Text.ofUnits (u :: us)) = false := by
        simp [Text.isDigits, Text.ofUnits, Text.isDigit_unitChar, not_isDigit_of_isWordStart hu]
      have hlookup : signs.lookup (Text.ofUnits (u :: us)) = none := by
        refine List.lookup_eq_none_iff.2 fun p hp => ?_
        rw [bne_iff_ne]
        rintro heq
        have hhead := hsigns p hp
        rw [← heq] at hhead
        simp [Text.ofUnits, hstart] at hhead
      rw [Token.Kind.ofText, hdigits, hlookup]
      rfl
  | minus | arrow => decide
  | mark hmark =>
      have hmarks : ∀ m ∈ marks, m.2 = .ofText (Text.ofUnits [m.1]) := by decide
      exact hmarks _ hmark

/-! ## Splits -/

/-- Up to the rest, the text is a gap, a lexeme, a gap, and so on, and the lexemes are the texts of the
tokens. The units before the text tell where the tokens stand. -/
inductive Splits : List UInt16 → List UInt16 → List Token → List UInt16 → Prop where
  | nil {before rest : List UInt16} : Splits before rest [] rest
  | cons {before gap lexeme text rest : List UInt16} {kind : Token.Kind} {ts : List Token} :
      Gap (lexeme ++ text) gap → Lexeme kind lexeme → Longest lexeme text →
      Splits (before ++ gap ++ lexeme) text ts rest →
      Splits before (gap ++ (lexeme ++ text))
        (⟨kind, Text.ofUnits lexeme, .behind (before ++ gap)⟩ :: ts) rest

end Lexer

/-! ## What the lexer reads next -/

namespace Cursor

open Lexer

variable {gap lexeme rest : List UInt16} {kind : Token.Kind} {u : UInt16}

/-- A gap in front changes only where things stand. -/
theorem next_gap (hgap : Gap rest gap) (p : Position) :
    next ⟨gap ++ rest, p⟩ = next ⟨rest, p.after gap⟩ := by
  simp only [next, splitGap_gap hgap, Position.after_append]

theorem next_finish (hgap : Gap [] gap) (p : Position) :
    next ⟨gap, p⟩ = .finish ⟨[], p.after gap⟩ := by
  have hnext := next_gap hgap p
  rwa [List.append_nil] at hnext

theorem next_stray (hgap : Gap (u :: rest) gap) (hu : Stray u) (p : Position) :
    next ⟨gap ++ u :: rest, p⟩ = .stray ⟨u, p.after gap⟩ ⟨rest, (p.after gap).next u⟩ := by
  rw [next_gap hgap]
  simp only [next, splitGap_of_not_mem hu.1, splitToken?_eq_none hu.2, Position.after_nil]

theorem next_token (hgap : Gap (lexeme ++ rest) gap) (hlexeme : Lexeme kind lexeme)
    (hlongest : Longest lexeme rest) (p : Position) :
    next ⟨gap ++ (lexeme ++ rest), p⟩ =
      .token ⟨kind, Text.ofUnits lexeme, p.after gap⟩ ⟨rest, (p.after gap).after lexeme⟩ := by
  rw [next_gap hgap, next_lexeme hlexeme hlongest]

/-! ## What the lexer reads in all -/

theorem readUpTo_succ_token {c behind : Cursor} {t : Token} (h : c.next = .token t behind)
    (fuel : Nat) : (c.readUpTo (fuel + 1)).1 = (behind.readUpTo fuel).1.map (TokenStream.push t) := by
  rw [readUpTo, h]
  rcases hread : behind.readUpTo fuel with ⟨e | s, c'⟩ <;> simp only [hread, Except.map]

/-- The tokens of a split come in front of what is read from the rest. -/
theorem readUpTo_of_splits {before text : List UInt16} {ts : List Token}
    (h : Splits before text ts rest) {fuel : Nat} (hfuel : text.length < fuel) :
    ∃ front fuel', text = front ++ rest ∧ rest.length < fuel' ∧
      (readUpTo fuel ⟨text, .behind before⟩).1 =
        (readUpTo fuel' ⟨rest, .behind (before ++ front)⟩).1.map
          fun s => { s with pending := ts ++ s.pending } := by
  induction h generalizing fuel with
  | nil =>
      refine ⟨[], fuel, rfl, hfuel, ?_⟩
      rw [List.append_nil]
      exact (congrFun Except.map_id _).symm
  | @cons before gap lexeme text rest kind ts hgap hlexeme hlongest _ ih =>
      obtain _ | fuel := fuel
      · exact absurd hfuel (Nat.not_lt_zero _)
      have hpos := hlexeme.length_pos
      have hfuel' : text.length < fuel := by
        simp only [List.length_append] at hfuel
        omega
      obtain ⟨front, fuel', rfl, hrest, hread⟩ := ih hfuel'
      refine ⟨gap ++ (lexeme ++ front), fuel', by simp only [List.append_assoc], hrest, ?_⟩
      rw [readUpTo_succ_token (next_token hgap hlexeme hlongest _), Position.after_behind,
        Position.after_behind, hread]
      simp only [List.append_assoc]
      cases (readUpTo fuel' ⟨rest, .behind (before ++ (gap ++ (lexeme ++ front)))⟩).1 <;> rfl

/-- A split up to the end gives the tokens of the text. -/
theorem read_of_finish {us : List UInt16} {ts : List Token} (h : Splits [] us ts gap)
    (hgap : Gap [] gap) : (ofUnits us).read.1 = .ok ⟨ts, .endAt (.behind us), rfl⟩ := by
  obtain ⟨front, fuel, rfl, hfuel, hread⟩ := readUpTo_of_splits h (Nat.lt_succ_self us.length)
  obtain _ | fuel := fuel
  · exact absurd hfuel (Nat.not_lt_zero _)
  have hstart : Position.start = .behind [] := rfl
  rw [read, ofUnits, hstart, hread, readUpTo, next_finish hgap]
  simp [Except.map, Position.after_behind]

/-- A split up to a unit that starts nothing gives the error that names the unit. -/
theorem read_of_stray {us front : List UInt16} {ts : List Token} (h : Splits [] us ts (gap ++ u :: rest))
    (hgap : Gap (u :: rest) gap) (hu : Stray u) (hfront : us = front ++ u :: rest) :
    (ofUnits us).read.1 = .error ⟨u, .behind front⟩ := by
  obtain ⟨front', fuel, hus, hfuel, hread⟩ := readUpTo_of_splits h (Nat.lt_succ_self us.length)
  obtain _ | fuel := fuel
  · exact absurd hfuel (Nat.not_lt_zero _)
  obtain rfl : front = front' ++ gap := by
    rw [hus, ← List.append_assoc] at hfront
    exact (List.append_cancel_right hfront).symm
  have hstart : Position.start = .behind [] := rfl
  rw [read, ofUnits, hstart, hread, readUpTo, next_stray hgap hu]
  simp [Except.map, Position.after_behind]

/-! ## Every text is split -/

/-- What stands at the front of a text: a last gap, a gap and a unit that starts nothing, or a gap and a
lexeme that ends there. -/
theorem front_cases (us : List UInt16) :
    Gap [] us ∨
    (∃ gap u rest, us = gap ++ u :: rest ∧ Gap (u :: rest) gap ∧ Stray u) ∨
    ∃ gap kind lexeme rest, us = gap ++ (lexeme ++ rest) ∧ Gap (lexeme ++ rest) gap ∧
      Lexeme kind lexeme ∧ Longest lexeme rest := by
  obtain ⟨hgap, hrest⟩ := splitGap_sound us
  have happend := splitGap_append false us
  generalize (splitGap false us).1 = gap at *
  generalize (splitGap false us).2 = rest at *
  subst happend
  cases rest with
  | nil =>
      rw [List.append_nil]
      exact .inl hgap
  | cons u rest =>
      cases hsplit : splitToken? u rest with
      | none =>
          have hstray : Stray u := ⟨hrest u rfl, not_lexeme_of_splitToken?_eq_none hsplit⟩
          exact .inr (.inl ⟨gap, u, rest, rfl, hgap, hstray⟩)
      | some parts =>
          obtain ⟨kind, lexeme, tail⟩ := parts
          obtain ⟨hlexeme, hlongest⟩ := splitToken?_sound hsplit
          rw [← splitToken?_append hsplit] at hgap ⊢
          exact .inr (.inr ⟨gap, kind, lexeme, tail, rfl, hgap, hlexeme, hlongest⟩)

theorem exists_splits (before text : List UInt16) :
    (∃ ts gap, Splits before text ts gap ∧ Gap [] gap) ∨
    ∃ ts gap u rest, Splits before text ts (gap ++ u :: rest) ∧ Gap (u :: rest) gap ∧ Stray u := by
  induction hn : text.length using Nat.strongRecOn generalizing before text with
  | ind n ih =>
      subst hn
      rcases front_cases text with
        hgap | ⟨gap, u, rest, rfl, hgap, hu⟩ | ⟨gap, kind, lexeme, rest, rfl, hgap, hlexeme, hlongest⟩
      · exact .inl ⟨[], text, .nil, hgap⟩
      · exact .inr ⟨[], gap, u, rest, .nil, hgap, hu⟩
      · have hpos := hlexeme.length_pos
        have hshorter : rest.length < (gap ++ (lexeme ++ rest)).length := by
          simp only [List.length_append]
          omega
        rcases ih rest.length hshorter (before ++ gap ++ lexeme) rest rfl with
          ⟨ts, last, h, hlast⟩ | ⟨ts, last, u, tail, h, hlast, hu⟩
        · exact .inl ⟨_, last, .cons hgap hlexeme hlongest h, hlast⟩
        · exact .inr ⟨_, last, u, tail, .cons hgap hlexeme hlongest h, hlast, hu⟩

/-- A text is split up to its end, or up to a unit that starts nothing, and that is what is read. -/
theorem read_cases (us : List UInt16) :
    (∃ ts gap, Splits [] us ts gap ∧ Gap [] gap ∧
      (ofUnits us).read.1 = .ok ⟨ts, .endAt (.behind us), rfl⟩) ∨
    ∃ ts gap front u rest, Splits [] us ts (gap ++ u :: rest) ∧ Gap (u :: rest) gap ∧ Stray u ∧
      us = front ++ u :: rest ∧ (ofUnits us).read.1 = .error ⟨u, .behind front⟩ := by
  rcases exists_splits [] us with ⟨ts, gap, h, hgap⟩ | ⟨ts, gap, u, rest, h, hgap, hu⟩
  · exact .inl ⟨ts, gap, h, hgap, read_of_finish h hgap⟩
  · obtain ⟨front, -, hfront, -, -⟩ := readUpTo_of_splits h (Nat.lt_succ_self us.length)
    rw [← List.append_assoc] at hfront
    exact .inr ⟨ts, gap, _, u, rest, h, hgap, hu, hfront, read_of_stray h hgap hu hfront⟩

/-! ## Tokens of a text -/

/-- A text has tokens exactly when it is a gap, a lexeme, a gap, and so on up to its end, and the tokens
are these lexemes, each where it stands and of the kind that its text has. Otherwise the error names the
first unit that neither goes on with what stands in front of it nor starts a gap or a lexeme. -/
theorem read_ofUnits (us : List UInt16) :
    (∀ source, Text.units source = us → tokenize source = (ofUnits us).read.1) ∧
    (∀ s, (ofUnits us).read.1 = .ok s ↔
      ∃ gap, Splits [] us s.pending gap ∧ Gap [] gap ∧ s.finish = .endAt (.behind us)) ∧
    (∀ s, (ofUnits us).read.1 = .ok s → ∀ t ∈ s.pending,
      t.kind = .ofText t.text ∧ ∀ p ∈ Token.keywords, t.kind = p.2 ↔ t.text = p.1) ∧
    (∀ e, (ofUnits us).read.1 = .error e ↔
      ∃ ts gap front rest, Splits [] us ts (gap ++ e.unit :: rest) ∧ Gap (e.unit :: rest) gap ∧
        Stray e.unit ∧ us = front ++ e.unit :: rest ∧ e.position = .behind front) ∧
    ∀ e : StrayUnit, e.message = "Unexpected character '" ++ Text.ofUnits [e.unit] ++ "' at " ++
      ("line " ++ toString e.position.line ++ ", column " ++ toString e.position.column) := by
  refine ⟨fun source hunits => hunits ▸ rfl, fun s => ⟨fun hread => ?_, ?_⟩, fun s hread t ht => ?_,
    fun e => ⟨fun hread => ?_, ?_⟩, fun e => rfl⟩
  · rcases read_cases us with ⟨ts, gap, h, hgap, hok⟩ | ⟨_, _, _, _, _, _, _, _, _, herror⟩
    · rw [hok, Except.ok.injEq] at hread
      subst hread
      exact ⟨gap, h, hgap, rfl⟩
    · rw [herror] at hread
      cases hread
  · rintro ⟨gap, h, hgap, hfinish⟩
    rw [read_of_finish h hgap]
    obtain ⟨pending, finish, hkind⟩ := s
    subst hfinish
    rfl
  · obtain ⟨lexeme, hlexeme, htext⟩ := readUpTo_lexemes hread t ht
    rw [htext]
    exact ⟨hlexeme.kind_eq_ofText, fun p hp => hlexeme.kind_eq_iff_of_keyword hp⟩
  · rcases read_cases us with ⟨_, _, _, _, hok⟩ | ⟨ts, gap, front, u, rest, h, hgap, hu, hus, herror⟩
    · rw [hok] at hread
      cases hread
    · rw [herror, Except.error.injEq] at hread
      subst hread
      exact ⟨ts, gap, front, rest, h, hgap, hu, hus, rfl⟩
  · rintro ⟨ts, gap, front, rest, h, hgap, hu, hfront, hposition⟩
    rw [read_of_stray h hgap hu hfront, ← hposition]

/-- A text of marks, a keyword, a name and a number with a comment up to its end, and one in which `?`
follows a digit on the second line. -/
theorem read_samples :
    (∃ s gap, tokenize "in (x?->07) # 1" = .ok s ∧
      Splits [] (Text.units "in (x?->07) # 1") s.pending gap ∧ Gap [] gap ∧
      s.pending.map Token.kind = [.kwIn, .openParen, .name, .arrow, .number, .closeParen] ∧
      ∀ t ∈ s.pending, t.kind = .ofText t.text) ∧
    ∃ ts gap front rest, Splits [] (Text.units "x?\n 7?") ts (gap ++ unit '?' :: rest) ∧
      Gap (unit '?' :: rest) gap ∧ Stray (unit '?') ∧
      Text.units "x?\n 7?" = front ++ unit '?' :: rest ∧ ⟨2, 3⟩ = Position.behind front := by
  have hok : tokenize "in (x?->07) # 1" = .ok ⟨[⟨.kwIn, "in", ⟨1, 1⟩⟩, ⟨.openParen, "(", ⟨1, 4⟩⟩,
      ⟨.name, "x?", ⟨1, 5⟩⟩, ⟨.arrow, "->", ⟨1, 7⟩⟩, ⟨.number, "07", ⟨1, 9⟩⟩,
      ⟨.closeParen, ")", ⟨1, 11⟩⟩], .endAt ⟨1, 16⟩, rfl⟩ := by decide +kernel
  have herror : (ofUnits (Text.units "x?\n 7?")).read.1 = .error ⟨unit '?', ⟨2, 3⟩⟩ := by
    decide +kernel
  obtain ⟨htokenize, hsplit, hkinds, -, -⟩ := read_ofUnits (Text.units "in (x?->07) # 1")
  obtain ⟨-, -, -, hstray, -⟩ := read_ofUnits (Text.units "x?\n 7?")
  have hread := htokenize "in (x?->07) # 1" rfl ▸ hok
  obtain ⟨gap, h, hgap, -⟩ := (hsplit _).1 hread
  exact ⟨⟨_, gap, hok, h, hgap, rfl, fun t ht => (hkinds _ hread t ht).1⟩, (hstray _).1 herror⟩

end Cursor

end TypedLet
