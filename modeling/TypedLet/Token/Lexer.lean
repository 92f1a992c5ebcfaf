import TypedLet.Text.Units
import TypedLet.Token

/-!
# From text to tokens

Between tokens stand gaps: blanks, and comments from `#` up to the end of the line. A token is a mark
such as `(` or `->`, a run of digits, or a word, and runs and words are as long as they can be. A unit
that starts neither a gap nor a token is stray. Reading stops there with an error, and the cursor is
left just behind the stray unit, so that a later reading goes on from there.
-/

namespace TypedLet

/-! ## Classes of units -/

namespace Lexer

/-- The unit of an ASCII character. -/
def unit (c : Char) : UInt16 := c.toNat.toUInt16

def isDigit (u : UInt16) : Bool := unit '0' ≤ u && u ≤ unit '9'

/-- A unit that can start a word: an ASCII letter or an underscore. -/
def isWordStart (u : UInt16) : Bool :=
  (unit 'a' ≤ u && u ≤ unit 'z') || (unit 'A' ≤ u && u ≤ unit 'Z') || u == unit '_'

/-- A unit that can stand in a word behind its start. -/
def isWordPart (u : UInt16) : Bool :=
  isWordStart u || isDigit u || u == unit '?'

def isSpace (u : UInt16) : Bool :=
  u == unit ' ' || u == unit '\t' || u == unit '\r' || u == Position.lineFeed

def commentMark : UInt16 := unit '#'

/-! ## Splitting off a gap and a token -/

/-- Splits off the longest gap. The flag says whether the text before ends inside a comment. -/
def splitGap : Bool → List UInt16 → List UInt16 × List UInt16
  | _, [] => ([], [])
  | inComment, u :: us =>
    if inComment || isSpace u || u == commentMark then
      let (gap, rest) := splitGap (if inComment then u != Position.lineFeed else u == commentMark) us
      (u :: gap, rest)
    else ([], u :: us)

/-- The kind of a mark that is one unit long and starts no longer one. -/
def markKind? (u : UInt16) : Option Token.Kind :=
  if u = unit '(' then some .openParen
  else if u = unit ')' then some .closeParen
  else if u = unit ',' then some .comma
  else if u = unit ':' then some .colon
  else if u = unit '=' then some .equals
  else none

/-- Splits a token off a text that starts with `u`: its kind, its units and the rest. -/
def splitToken? (u : UInt16) (us : List UInt16) : Option (Token.Kind × List UInt16 × List UInt16) :=
  if isDigit u then
    some (.number, u :: us.takeWhile isDigit, us.dropWhile isDigit)
  else if isWordStart u then
    let word := u :: us.takeWhile isWordPart
    some (.ofWord (Text.ofUnits word), word, us.dropWhile isWordPart)
  else if u = unit '-' then
    if us.head? = some (unit '>') then some (.arrow, [u, unit '>'], us.tail)
    else some (.minus, [u], us)
  else
    (markKind? u).map fun kind => (kind, [u], us)

/-! ## Nothing is lost -/

theorem splitGap_append (inComment : Bool) (us : List UInt16) :
    (splitGap inComment us).1 ++ (splitGap inComment us).2 = us := by
  induction us generalizing inComment with
  | nil => rfl
  | cons u us ih =>
    unfold splitGap
    split
    · simp [ih]
    · rfl

theorem splitToken?_append {u : UInt16} {us lexeme rest : List UInt16} {kind : Token.Kind}
    (h : splitToken? u us = some (kind, lexeme, rest)) : lexeme ++ rest = u :: us := by
  unfold splitToken? at h
  split at h
  · simp only [Option.some.injEq, Prod.mk.injEq] at h
    obtain ⟨_, rfl, rfl⟩ := h
    simp [List.takeWhile_append_dropWhile]
  · split at h
    · simp only [Option.some.injEq, Prod.mk.injEq] at h
      obtain ⟨_, rfl, rfl⟩ := h
      simp [List.takeWhile_append_dropWhile]
    · split at h
      · split at h
        · rename_i hmark
          simp only [Option.some.injEq, Prod.mk.injEq] at h
          obtain ⟨_, rfl, rfl⟩ := h
          cases us with
          | nil => simp at hmark
          | cons v vs =>
            simp only [List.head?_cons, Option.some.injEq] at hmark
            simp [hmark]
        · simp only [Option.some.injEq, Prod.mk.injEq] at h
          obtain ⟨_, rfl, rfl⟩ := h
          rfl
      · simp only [Option.map_eq_some_iff, Prod.mk.injEq] at h
        obtain ⟨_, _, _, rfl, rfl⟩ := h
        rfl

theorem lexeme_ne_nil {u : UInt16} {us lexeme rest : List UInt16} {kind : Token.Kind}
    (h : splitToken? u us = some (kind, lexeme, rest)) : lexeme ≠ [] := by
  intro hnil
  subst hnil
  unfold splitToken? at h
  split at h
  · simp at h
  · split at h
    · simp at h
    · split at h
      · split at h <;> simp at h
      · simp at h

end Lexer

/-! ## Cursors -/

/-- A place in a text: what is still unread, and the position of its start. -/
structure Cursor where
  rest : List UInt16
  position : Position
  deriving DecidableEq, Repr, Inhabited

/-- A unit that no token starts with, and where it stands. -/
structure StrayUnit where
  unit : UInt16
  position : Position
  deriving DecidableEq, Repr, Inhabited

/-- The message shows a lone half of a pair as U+FFFD (`Text.unitChar`). -/
def StrayUnit.message (e : StrayUnit) : String :=
  "Unexpected character '" ++ Text.ofUnits [e.unit] ++ "' at " ++ e.position.render

namespace Cursor

def ofUnits (us : List UInt16) : Cursor := ⟨us, .start⟩

def ofText (s : String) : Cursor := ofUnits (Text.units s)

/-- What comes next in a text, and the place behind it. -/
inductive Next where
  | token (t : Token) (behind : Cursor)
  | stray (e : StrayUnit) (behind : Cursor)
  | finish (behind : Cursor)

/-- Skips a gap and reads one token. -/
def next (c : Cursor) : Next :=
  let (gap, rest) := Lexer.splitGap false c.rest
  let start := c.position.after gap
  match rest with
  | [] => .finish ⟨[], start⟩
  | u :: us =>
    match Lexer.splitToken? u us with
    | some (kind, lexeme, rest) =>
      .token ⟨kind, Text.ofUnits lexeme, start⟩ ⟨rest, start.after lexeme⟩
    | none => .stray ⟨u, start⟩ ⟨us, start.next u⟩

/-- Reads at most `fuel` tokens and the end of the text. -/
def readUpTo : Nat → Cursor → Except StrayUnit TokenStream × Cursor
  | 0, c => (.ok ⟨[], .endAt c.position, rfl⟩, c)
  | fuel + 1, c =>
    match c.next with
    | .finish c => (.ok ⟨[], .endAt c.position, rfl⟩, c)
    | .stray e c => (.error e, c)
    | .token t c =>
      match readUpTo fuel c with
      | (.ok s, c) => (.ok (s.push t), c)
      | (.error e, c) => (.error e, c)

/-- Reads the tokens up to the end or up to a stray unit. Each token takes a unit, so the number of
units bounds the tokens. -/
def read (c : Cursor) : Except StrayUnit TokenStream × Cursor :=
  c.readUpTo (c.rest.length + 1)

end Cursor

def tokenize (source : String) : Except StrayUnit TokenStream :=
  (Cursor.ofText source).read.1

end TypedLet
