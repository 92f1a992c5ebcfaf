import Mathlib.Data.Set.Card
import Mathlib.Logic.Function.Iterate
import TypedLet.Proofs.Token.Splitting

/-!
# Reading on behind a stray unit

A cursor can be read from again. Whatever has been read before, it stands where its unread text starts in
the whole text, and what comes next is what a new cursor reads from the unread text, with every position
told from there.
-/

namespace TypedLet

/-! ## Positions told from a place in a text -/

/-- Where a position of a text is, if the text starts at `base`. Only on its first line do the columns
go on from those of `base`. -/
def Position.shift (base p : Position) : Position :=
  ⟨base.line + (p.line - 1), if p.line = 1 then base.column + (p.column - 1) else p.column⟩

def Token.shift (base : Position) (t : Token) : Token :=
  { t with position := base.shift t.position }

def TokenStream.shift (base : Position) (s : TokenStream) : TokenStream where
  pending := s.pending.map (Token.shift base)
  finish := s.finish.shift base
  finish_kind := s.finish_kind

def StrayUnit.shift (base : Position) (e : StrayUnit) : StrayUnit :=
  { e with position := base.shift e.position }

namespace Position

/-- A unit moves both positions alike, as long as the lines of the text count from one. -/
theorem shift_next {p : Position} (base : Position) (h : 1 ≤ p.line) (u : UInt16) :
    base.shift (p.next u) = (base.shift p).next u := by
  by_cases hu : u = lineFeed
  · have hline : p.line + 1 ≠ 1 := by omega
    simp only [shift, next, if_pos hu, if_neg hline, mk.injEq, and_true]
    omega
  · by_cases hfirst : p.line = 1
    · simp only [shift, next, if_neg hu, if_pos hfirst, mk.injEq, true_and]
      omega
    · simp only [shift, next, if_neg hu, if_neg hfirst]

theorem shift_behind (base : Position) (us : List UInt16) : base.shift (behind us) = base.after us := by
  induction us using List.reverseRecOn with
  | nil => simp [shift, behind]
  | append_singleton us u ih =>
      have hline : 1 ≤ (behind us).line := by
        simp only [behind]
        omega
      rw [behind_concat, shift_next base hline, ih, after_append]
      rfl

theorem after_after (base : Position) (us vs : List UInt16) :
    (base.after us).after vs = base.shift (behind (us ++ vs)) := by
  rw [← after_append, shift_behind]

end Position

namespace Cursor

open Lexer

variable {us : List UInt16} {c : Cursor} {e : StrayUnit} {s : TokenStream} {n : Nat}

/-! ## One reading -/

/-- What is read from a text that starts at `base`. -/
def resultFrom (base : Position) :
    Except StrayUnit TokenStream → Except StrayUnit TokenStream
  | .ok s => .ok (s.shift base)
  | .error e => .error (e.shift base)

theorem resultFrom_map_push (base : Position) (t : Token) (r : Except StrayUnit TokenStream) :
    resultFrom base (r.map (TokenStream.push t)) =
      (resultFrom base r).map (TokenStream.push (t.shift base)) := by
  cases r <;> rfl

theorem readUpTo_shift (base : Position) (fuel : Nat) (front us : List UInt16) :
    (readUpTo fuel ⟨us, base.after front⟩).1 =
      resultFrom base (readUpTo fuel ⟨us, .behind front⟩).1 := by
  induction fuel generalizing front us with
  | zero =>
      rw [← Position.shift_behind]
      rfl
  | succ fuel ih =>
      rcases front_cases us with
        hgap | ⟨gap, u, rest, rfl, hgap, hu⟩ | ⟨gap, kind, lexeme, rest, rfl, hgap, hlexeme, hlongest⟩
      -- Each position is that of some more units behind `front`, in both texts.
      · have hend := base.after_after front us
        simp only [readUpTo, next_finish hgap, Position.after_behind, hend]
        rfl
      · have hstart := base.after_after front gap
        simp only [readUpTo, next_stray hgap hu, Position.after_behind, hstart]
        rfl
      · rw [readUpTo_succ_token (next_token hgap hlexeme hlongest _),
          readUpTo_succ_token (next_token hgap hlexeme hlongest _), resultFrom_map_push]
        simp only [← Position.after_append, Position.after_behind, ih, Token.shift, Position.shift_behind]

theorem read_eq_resultFrom (c : Cursor) : c.read.1 = resultFrom c.position (ofUnits c.rest).read.1 :=
  readUpTo_shift c.position (c.rest.length + 1) [] c.rest

/-- Reading ends at the end of the text or just behind a stray unit. -/
theorem readUpTo_ends {fuel : Nat} (hfuel : us.length < fuel) (p : Position) :
    (∃ s, readUpTo fuel ⟨us, p⟩ = (.ok s, ⟨[], p.after us⟩)) ∨
    ∃ front u rest, us = front ++ u :: rest ∧
      readUpTo fuel ⟨us, p⟩ = (.error ⟨u, p.after front⟩, ⟨rest, (p.after front).next u⟩) := by
  induction fuel generalizing us p with
  | zero => cases hfuel
  | succ fuel ih =>
      rcases front_cases us with
        hgap | ⟨gap, u, rest, rfl, hgap, hu⟩ | ⟨gap, kind, lexeme, rest, rfl, hgap, hlexeme, hlongest⟩
      · refine .inl ⟨⟨[], .endAt (p.after us), rfl⟩, ?_⟩
        simp only [readUpTo, next_finish hgap]
      · refine .inr ⟨gap, u, rest, rfl, ?_⟩
        simp only [readUpTo, next_stray hgap hu]
      · have hpos := hlexeme.length_pos
        have hshorter : rest.length < fuel := by
          simp only [List.length_append] at hfuel
          omega
        have hnext := next_token hgap hlexeme hlongest p
        rcases ih hshorter ((p.after gap).after lexeme) with
          ⟨s, hread⟩ | ⟨front, u, rest, rfl, hread⟩
        · refine .inl ⟨s.push ⟨kind, Text.ofUnits lexeme, p.after gap⟩, ?_⟩
          simp only [readUpTo, hnext, hread, Position.after_append]
        · refine .inr ⟨gap ++ (lexeme ++ front), u, rest, by simp only [List.append_assoc], ?_⟩
          simp only [readUpTo, hnext, hread, Position.after_append]

/-- The cursor stands in the text, at the position that its place has there. -/
def IsIn (us : List UInt16) (c : Cursor) : Prop :=
  ∃ front, us = front ++ c.rest ∧ c.position = .behind front

theorem isIn_ofUnits (us : List UInt16) : IsIn us (ofUnits us) := ⟨[], rfl, rfl⟩

/-- What one reading from a cursor in the text does: it succeeds and leaves nothing, or it fails and leaves
what follows the unit that it names. -/
theorem IsIn.read_cases (h : IsIn us c) :
    (∃ s, c.read = (.ok s, ⟨[], .behind us⟩)) ∨
    ∃ front u rest, us = front ++ u :: rest ∧ rest.length < c.rest.length ∧
      c.read = (.error ⟨u, .behind front⟩, ⟨rest, .behind (front ++ [u])⟩) := by
  obtain ⟨rest, p⟩ := c
  obtain ⟨front, rfl, rfl⟩ := h
  rcases readUpTo_ends (Nat.lt_succ_self rest.length) (.behind front) with
    ⟨s, hread⟩ | ⟨between, u, tail, rfl, hread⟩
  · rw [Position.after_behind] at hread
    exact .inl ⟨s, hread⟩
  · rw [Position.after_behind, ← Position.behind_concat] at hread
    refine .inr ⟨front ++ between, u, tail, by simp, ?_, hread⟩
    simp only [List.length_append, List.length_cons]
    omega

theorem IsIn.read (h : IsIn us c) : IsIn us c.read.2 := by
  rcases h.read_cases with ⟨s, hread⟩ | ⟨front, u, rest, hus, -, hread⟩
  · exact ⟨us, by rw [hread, List.append_nil], by rw [hread]⟩
  · exact ⟨front ++ [u], by rw [hread, hus, List.append_assoc, List.singleton_append], by rw [hread]⟩

/-! ## Any number of readings -/

/-- The cursor when it has been read from `n` times. -/
def after (n : Nat) (c : Cursor) : Cursor := (fun c => c.read.2)^[n] c

/-- What comes of reading once more. -/
def result (n : Nat) (c : Cursor) : Except StrayUnit TokenStream := (c.after n).read.1

theorem after_succ (n : Nat) (c : Cursor) : c.after (n + 1) = (c.after n).read.2 :=
  Function.iterate_succ_apply' ..

theorem isIn_after (us : List UInt16) (n : Nat) : IsIn us ((ofUnits us).after n) := by
  induction n with
  | zero => exact isIn_ofUnits us
  | succ n ih =>
      rw [after_succ]
      exact ih.read

/-- Every reading takes a unit at least, as long as there are any. -/
theorem length_rest_after (us : List UInt16) (n : Nat) :
    ((ofUnits us).after n).rest.length ≤ us.length - n := by
  induction n with
  | zero => exact Nat.le_refl _
  | succ n ih =>
      rw [after_succ]
      rcases (isIn_after us n).read_cases with ⟨s, hread⟩ | ⟨front, u, rest, -, hlt, hread⟩
      · simp [hread]
      · simp only [hread]
        omega

theorem lt_length_of_result_eq_error (h : (ofUnits us).result n = .error e) : n < us.length := by
  have hlength := length_rest_after us n
  rcases (isIn_after us n).read_cases with ⟨s, hread⟩ | ⟨front, u, rest, -, hlt, hread⟩
  · rw [result, hread] at h
    cases h
  · omega

theorem after_of_result_eq_ok (h : (ofUnits us).result n = .ok s) {m : Nat} (hlt : n < m) :
    (ofUnits us).after m = ⟨[], .behind us⟩ := by
  induction m, hlt using Nat.le_induction with
  | base =>
      rw [after_succ]
      rcases (isIn_after us n).read_cases with ⟨s, hread⟩ | ⟨front, u, rest, -, -, hread⟩
      · rw [hread]
      · rw [result, hread] at h
        cases h
  | succ m _ ih =>
      rw [after_succ, ih]
      rfl

/-- A cursor reads on behind an error, with the positions of the whole text. However often it has been
read from, it stands where its unread text starts, and reads what a new cursor reads from that text, told
from there. A reading that fails leaves just what follows the unit that it names, no more readings fail than
the text has units, and once one succeeds, the later ones find the end of the text. -/
theorem read_resumes (us : List UInt16) (n : Nat) :
    (∃ front, us = front ++ ((ofUnits us).after n).rest ∧
      ((ofUnits us).after n).position = .behind front ∧
      (ofUnits us).result n =
        resultFrom (.behind front) (ofUnits ((ofUnits us).after n).rest).read.1) ∧
    (∀ e, (ofUnits us).result n = .error e →
      ∃ front, us = front ++ e.unit :: ((ofUnits us).after (n + 1)).rest ∧ e.position = .behind front ∧
        ((ofUnits us).after (n + 1)).position = .behind (front ++ [e.unit])) ∧
    {m | ∃ e, (ofUnits us).result m = .error e}.encard ≤ us.length ∧
    ∀ s, (ofUnits us).result n = .ok s →
      ∀ m, n < m → (ofUnits us).result m = .ok ⟨[], .endAt (.behind us), rfl⟩ := by
  refine ⟨?_, fun e he => ?_, ?_, fun s hs m hlt => ?_⟩
  · obtain ⟨front, hus, hposition⟩ := isIn_after us n
    exact ⟨front, hus, hposition, by rw [result, read_eq_resultFrom, hposition]⟩
  · rw [after_succ]
    rcases (isIn_after us n).read_cases with ⟨s, hread⟩ | ⟨front, u, rest, hus, -, hread⟩
    · rw [result, hread] at he
      cases he
    · rw [result, hread] at he
      cases he
      exact ⟨front, by rw [hread]; exact hus, rfl, by rw [hread]⟩
  · have hsub : {m | ∃ e, (ofUnits us).result m = .error e} ⊆ (Finset.range us.length : Set Nat) := by
      rintro m ⟨e, he⟩
      exact Finset.mem_coe.2 (Finset.mem_range.2 (lt_length_of_result_eq_error he))
    calc {m | ∃ e, (ofUnits us).result m = .error e}.encard
        ≤ (Finset.range us.length : Set Nat).encard := Set.encard_le_encard hsub
      _ = us.length := by rw [Set.encard_coe_eq_coe_finsetCard, Finset.card_range]
  · rw [result, after_of_result_eq_ok hs hlt]
    rfl

/-- Two stray units on two lines, then a word up to the end. -/
theorem twice_stray_read_resumes :
    (∃ front, Text.units "1 @\n ?b" = front ++ unit '?' :: Text.units "b" ∧
      ⟨2, 2⟩ = Position.behind front) ∧
    (ofUnits (Text.units "1 @\n ?b")).result 2 =
      resultFrom ⟨2, 3⟩ (ofUnits (Text.units "b")).read.1 ∧
    ∀ m, 2 < m → (ofUnits (Text.units "1 @\n ?b")).result m = .ok ⟨[], .endAt ⟨2, 4⟩, rfl⟩ := by
  let c := ofUnits (Text.units "1 @\n ?b")
  have hstray : c.result 1 = .error ⟨unit '?', ⟨2, 2⟩⟩ := by decide +kernel
  have hafter : c.after 2 = ⟨Text.units "b", ⟨2, 3⟩⟩ := by decide +kernel
  have hword : c.result 2 = .ok ⟨[⟨.name, "b", ⟨2, 3⟩⟩], .endAt ⟨2, 4⟩, rfl⟩ := by decide +kernel
  obtain ⟨-, hfails, -, -⟩ := read_resumes (Text.units "1 @\n ?b") 1
  obtain ⟨⟨front, -, hposition, hresult⟩, -, -, hsucceeds⟩ := read_resumes (Text.units "1 @\n ?b") 2
  obtain ⟨before, hbefore, hwhere, -⟩ := hfails _ hstray
  rw [hafter] at hbefore hposition hresult
  rw [← hposition] at hresult
  exact ⟨⟨before, hbefore, hwhere⟩, hresult, hsucceeds _ hword⟩

end Cursor

end TypedLet
