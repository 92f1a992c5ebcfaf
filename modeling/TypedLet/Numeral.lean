import TypedLet.Decimal.Shortest

/-!
# Numerals

A number literal keeps its text as written, leading zeros and all. The text is a numeral when it is
an optional minus sign and at least one ASCII digit. A literal can be made from a text, from an
integer, or from a binary number that holds an integer exactly.
-/

namespace TypedLet.Numeral

def isDigit (c : Char) : Bool := '0' ≤ c && c ≤ '9'

/-- The digits of a numeral, without its sign. -/
def digits : List Char → List Char
  | '-' :: cs => cs
  | cs => cs

/-- Whether the text is an optional minus sign and at least one digit. -/
def isNumeral (text : String) : Bool :=
  let ds := digits text.toList
  !ds.isEmpty && ds.all isDigit

def ofDigits (ds : List Char) : Nat :=
  ds.foldl (fun n c => 10 * n + (c.toNat - '0'.toNat)) 0

def value (text : String) : Int :=
  let magnitude : Int := ofDigits (digits text.toList)
  if text.toList.head? = some '-' then -magnitude else magnitude

/-- The integer `2^53 - 1`, up to which a 64-bit binary number tells every two integers apart. -/
def maxExact : Nat := 9007199254740991

/-! ## Making a literal -/

/-- What a number literal can be made from. -/
inductive Origin where
  | text (s : String)
  | integer (n : Int)
  | float (x : Float)

namespace Origin

def render : Origin → String
  | text s => s
  | integer n => toString n
  | float x => Decimal.floatText x

/-- Whether the number is known to be the one that was meant: a binary number beyond `maxExact` can
stand for its neighbours too. -/
def isExact : Origin → Bool
  | text _ => true
  | integer _ => true
  | float x =>
    match Decimal.ofFloat? x with
    | some d => d.floor.natAbs ≤ maxExact
    | none => false

end Origin

/-- A number that is not an integer, or not known to be the one that was meant. -/
structure Refused where
  text : String
  deriving DecidableEq, Repr

def Refused.message (e : Refused) : String :=
  "num() expects an integer but got " ++ e.text

/-- The text of a literal made from the given number. -/
def literal (o : Origin) : Except Refused String :=
  if o.isExact && isNumeral o.render then .ok o.render else .error ⟨o.render⟩

end TypedLet.Numeral
