import TypedLet.Decimal

/-!
# The shortest decimal of a binary number

A 64-bit binary number stands for the interval of reals that round to it. Among the decimals in this
interval, those with the fewest digits are taken, of these the nearest to the number, and of two
equally near the one with an even last digit. On each grid of decimals only the two neighbours of the
number can be the nearest, so it is enough to try them on finer and finer grids.
-/

namespace TypedLet.Decimal

/-- A positive number `mantissa * 2 ^ power`, with the interval of reals that round to it. -/
structure Rounded where
  mantissa : Nat
  power : Int
  /-- Whether the neighbour below is only half as far away as the one above. -/
  narrowBelow : Bool
  deriving DecidableEq, Repr

namespace Rounded

/-- The numerator factor that brings a quarter of the last binary place to an integer. -/
def scale (x : Rounded) : Nat := Nat.pow 2 x.power.toNat

/-- Four times the denominator of `mantissa * 2 ^ power`. -/
def denominator (x : Rounded) : Nat := 4 * Nat.pow 2 (-x.power).toNat

/-- The number itself, over `denominator`. -/
def middle (x : Rounded) : Nat := 4 * x.mantissa * x.scale

def lower (x : Rounded) : Nat := (4 * x.mantissa - if x.narrowBelow then 1 else 2) * x.scale

def upper (x : Rounded) : Nat := (4 * x.mantissa + 2) * x.scale

/-- Whether `n * num / den` rounds to the number. The ends count when the mantissa is even. -/
def contains (x : Rounded) (n num den : Nat) : Bool :=
  let point := n * num * x.denominator
  if x.mantissa % 2 = 0 then x.lower * den ≤ point && point ≤ x.upper * den
  else x.lower * den < point && point < x.upper * den

/-- The decimal on the grid of `10 ^ exponent` that rounds to the number and is nearest to it. -/
def onGrid (x : Rounded) (exponent : Int) : Option Nat :=
  let num := tenTo exponent.toNat
  let den := tenTo (-exponent).toNat
  let below := x.middle * den / (x.denominator * num)
  let rest := x.middle * den - below * (x.denominator * num)
  let nearBelow := 2 * rest < x.denominator * num || (2 * rest = x.denominator * num && below % 2 = 0)
  match x.contains below num den, x.contains (below + 1) num den with
  | true, true => some (if nearBelow then below else below + 1)
  | true, false => some below
  | false, true => some (below + 1)
  | false, false => none

/-- The least `k` with the number below `10 ^ k`, looked for from `k` upwards. -/
def magnitudeFrom (x : Rounded) : Nat → Int → Int
  | 0, k => k
  | fuel + 1, k =>
    if x.middle * tenTo (-k).toNat < x.denominator * tenTo k.toNat then k
    else x.magnitudeFrom fuel (k + 1)

/-- The place of the leading digit: the number is below `10 ^ magnitude` and not below a tenth of it. -/
def magnitude (x : Rounded) : Int := x.magnitudeFrom 640 (-325)

/-- The shortest decimal that rounds to the number. Seventeen digits always suffice. -/
def shortest (x : Rounded) : Decimal :=
  let top := x.magnitude
  match (List.range 17).findSome? fun i =>
      let exponent : Int := top - (i + 1 : Nat)
      (x.onGrid exponent).map fun n => Decimal.mk n exponent with
  | some d => d
  | none => ⟨0, 0⟩

end Rounded

/-- The digits of a 64-bit binary number, or nothing where it is no finite number. -/
def ofFloat? (x : Float) : Option Decimal :=
  let field : Nat := ((x.toBits >>> 52) &&& 0x7FF).toNat
  let fraction : Nat := (x.toBits &&& 0xFFFFFFFFFFFFF).toNat
  if field = 0x7FF then none
  else if field = 0 ∧ fraction = 0 then some ⟨0, 0⟩
  else
    let magnitude : Rounded :=
      if field = 0 then ⟨fraction, -1074, false⟩
      else ⟨0x10000000000000 + fraction, (field : Int) - 1075, fraction = 0 ∧ 1 < field⟩
    let d := magnitude.shortest
    some (if x.toBits >>> 63 = 1 then ⟨-d.coefficient, d.exponent⟩ else d)

/-- The text of a 64-bit binary number: its shortest decimal, or the name of the special value. -/
def floatText (x : Float) : String :=
  match ofFloat? x with
  | some d => d.render
  | none => if x.isNaN then "NaN" else if x < 0 then "-Infinity" else "Infinity"

/-! ## Samples of texts -/

example : floatText 0.1 = "0.1" := by decide +kernel

example : floatText 9007199254740993 = "9007199254740992" := by decide +kernel

example : floatText 1e21 = "1e+21" := by decide +kernel

example : floatText (0.0 / 0.0) = "NaN" := by decide +kernel

end TypedLet.Decimal
