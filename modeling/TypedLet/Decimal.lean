/-!
# Decimal numbers

A decimal number is an integer times a power of ten. Two things are needed of it: its floor, which
bounds a count, and its text. The text has no trailing zeros after the point, is positional as long
as it needs at most 21 digits before the point and at most six zeros behind it, and has a signed
exponent of ten otherwise.
-/

namespace TypedLet

/-- The number `coefficient * 10 ^ exponent`. -/
structure Decimal where
  coefficient : Int
  exponent : Int
  deriving DecidableEq, Repr, Inhabited

namespace Decimal

def ofInt (n : Int) : Decimal := ⟨n, 0⟩

def tenTo (n : Nat) : Nat := Nat.pow 10 n

/-- The greatest integer that is not above the number. -/
def floor (d : Decimal) : Int :=
  if 0 ≤ d.exponent then d.coefficient * tenTo d.exponent.toNat
  else d.coefficient / tenTo (-d.exponent).toNat

/-! ## Text -/

/-- At most this many digits stand before the point of a positional text. -/
def maxWhole : Int := 21

/-- A positional text starts with fewer than this many zeros behind the point. -/
def maxLeadingZeros : Int := 6

/-- The exponent of ten as it is written: a mark, a sign and the digits. -/
def exponentText (e : Int) : List Char :=
  'e' :: (if e < 0 then '-' else '+') :: Nat.toDigits 10 e.natAbs

/-- Writes significant digits whose first one stands just behind the point, times `10 ^ point`. -/
def layout (digits : List Char) (point : Int) : List Char :=
  if 0 < point ∧ point ≤ maxWhole then
    let whole := digits.take point.toNat
    let fraction := digits.drop point.toNat
    whole ++ List.replicate (point.toNat - whole.length) '0' ++
      (if fraction.isEmpty then [] else '.' :: fraction)
  else if -maxLeadingZeros < point ∧ point ≤ 0 then
    '0' :: '.' :: (List.replicate (-point).toNat '0' ++ digits)
  else
    digits.take 1 ++ (if digits.length ≤ 1 then [] else '.' :: digits.drop 1) ++
      exponentText (point - 1)

/-- The digits without the zeros at their end. -/
def significant (digits : List Char) : List Char :=
  (digits.reverse.dropWhile (· == '0')).reverse

def render (d : Decimal) : String :=
  if d.coefficient = 0 then "0"
  else
    let digits := Nat.toDigits 10 d.coefficient.natAbs
    let text := layout (significant digits) (digits.length + d.exponent)
    String.ofList (if d.coefficient < 0 then '-' :: text else text)

@[simp] theorem floor_ofInt (n : Int) : (ofInt n).floor = n := by
  simp [ofInt, floor, tenTo]

/-! ## Samples of texts -/

example : (ofInt 120).render = "120" := by decide +kernel

example : (⟨25, -1⟩ : Decimal).render = "2.5" := by decide +kernel

example : (⟨-5, -7⟩ : Decimal).render = "-5e-7" := by decide +kernel

example : (⟨1, -6⟩ : Decimal).render = "0.000001" := by decide +kernel

example : (⟨15, 20⟩ : Decimal).render = "1.5e+21" := by decide +kernel

end Decimal

end TypedLet
