import TypedLet.Position

/-!
# Tokens

A token has a kind, the text it was read from, and the position where that text starts. The kind of a
word depends on its text alone: the words in `keywords` have a kind of their own, and every other
word is a name.
-/

namespace TypedLet

inductive Token.Kind where
  | number
  | name
  | kwTrue
  | kwFalse
  | kwLet
  | kwLetrec
  | kwIn
  | kwProc
  | kwIf
  | kwThen
  | kwElse
  | kwAssert
  | kwZero
  | kwInt
  | kwBool
  | minus
  | arrow
  | openParen
  | closeParen
  | comma
  | colon
  | equals
  | finish
  deriving DecidableEq, Repr, Inhabited

/-- A piece of program text that the grammar does not look into. -/
structure Token where
  kind : Token.Kind
  text : String
  position : Position
  deriving DecidableEq, Repr, Inhabited

namespace Token

/-- The words that are no names. -/
def keywords : List (String × Kind) :=
  [("let", .kwLet), ("letrec", .kwLetrec), ("in", .kwIn), ("proc", .kwProc), ("if", .kwIf),
    ("then", .kwThen), ("else", .kwElse), ("assert", .kwAssert), ("zero?", .kwZero),
    ("int", .kwInt), ("bool", .kwBool), ("true", .kwTrue), ("false", .kwFalse)]

def Kind.ofWord (word : String) : Kind :=
  (keywords.lookup word).getD .name

/-- The token that ends an input. -/
def endAt (p : Position) : Token := ⟨.finish, "", p⟩

/-- How a message names the token. -/
def describe (t : Token) : String :=
  if t.kind = .finish then "end of input" else "'" ++ t.text ++ "'"

end Token

/-- Tokens still to be read: those pending, and the one that ends the input and is never passed. -/
structure TokenStream where
  pending : List Token
  finish : Token
  finish_kind : finish.kind = .finish
  deriving DecidableEq, Repr

namespace TokenStream

instance : Inhabited TokenStream := ⟨[], .endAt .start, rfl⟩

def head (s : TokenStream) : Token :=
  s.pending.headD s.finish

/-- What remains behind the front token; the last token stays. -/
def tail (s : TokenStream) : TokenStream :=
  { s with pending := s.pending.tail }

/-- Every token of the stream, the last one included. -/
def tokens (s : TokenStream) : List Token :=
  s.pending ++ [s.finish]

/-- The stream with one more token at the front. -/
def push (t : Token) (s : TokenStream) : TokenStream :=
  { s with pending := t :: s.pending }

/-- The tokens up to the first that ends the input, if there is one. What follows it is dropped. -/
def ofTokens? : List Token → Option TokenStream
  | [] => none
  | t :: ts => if h : t.kind = .finish then some ⟨[], t, h⟩ else (ofTokens? ts).map (push t)

@[simp] theorem head_push (t : Token) (s : TokenStream) : (s.push t).head = t := rfl

@[simp] theorem tail_push (t : Token) (s : TokenStream) : (s.push t).tail = s := rfl

@[simp] theorem pending_push (t : Token) (s : TokenStream) :
    (s.push t).pending = t :: s.pending := rfl

/-- A stream whose front token does not end the input is that token and the rest. -/
theorem push_head_tail {s : TokenStream} (h : s.head.kind ≠ .finish) : s.tail.push s.head = s := by
  obtain ⟨_ | ⟨t, ts⟩, finish, hf⟩ := s
  · exact absurd hf h
  · rfl

end TokenStream

end TypedLet
