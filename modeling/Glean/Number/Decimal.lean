import Glean.Number.Exact

/-!
# The shortest decimal text of a number

Of all decimals that read back as a given number, `shortest` takes those with the fewest digits
and among them the one nearest to the number; a `Tie` says which of two equally near ones it is.
The search runs over the number of digits in whole-number arithmetic: with the number written as a
fraction, a decimal reads back exactly when it lies between the midpoints to the two neighbouring
numbers, the midpoints included when the significand is even.

`text` is how a number is written inside strings: positional from `1e-6` up to, but not
including, `1e21`, and with an exponent that carries its sign outside that range. A tie goes away
from zero there.
-/

namespace Glean.Number

/-- A power of ten. -/
def tenTo (exponent : Nat) : Nat := Nat.pow 10 exponent

/-- Which of the two decimals around a number is taken when it lies halfway between them. -/
inductive Tie where
  /-- The one further away from zero. -/
  | away
  /-- The one with an even last digit. -/
  | even
deriving DecidableEq, Repr

/-- Whether a number halfway between `digits` and `digits + 1` goes to `digits`. -/
def Tie.keepsBelow (tie : Tie) (digits : Nat) : Bool :=
  match tie with
  | away => false
  | even => digits % 2 == 0

/-- A positive fraction with the midpoints to its two neighbours, over one denominator. -/
structure Interval where
  /-- Numerator of the midpoint below. -/
  lower : Nat
  /-- Numerator of the number. -/
  value : Nat
  /-- Numerator of the midpoint above. -/
  upper : Nat
  /-- The common denominator. -/
  scale : Nat
  /-- Whether a decimal on a midpoint still reads back as the number. -/
  closed : Bool

/-- The numbers that round to `significand * 2 ^ exponent`. Below a power of two the neighbour is
only half as far away, unless the number is already on the finest grid. -/
def Interval.around (significand : Nat) (exponent : Int) : Interval :=
  let unit := twoTo (exponent - 2).toNat
  let scale := twoTo (2 - exponent).toNat
  let narrow := significand = twoTo 52 ∧ -1074 < exponent
  { lower := (4 * significand - if narrow then 1 else 2) * unit
    value := 4 * significand * unit
    upper := (4 * significand + 2) * unit
    scale
    closed := significand % 2 = 0 }

/-- A decimal: a whole number of units, each a power of ten. -/
structure Decimal where
  /-- The digits as one whole number. -/
  digits : Nat
  /-- The power of ten that one unit is worth. -/
  exponent : Int
deriving DecidableEq, Repr

namespace Interval

/-- Whether `digits * 10 ^ exponent` reads back as the number. -/
def admits (interval : Interval) (digits : Nat) (exponent : Int) : Bool :=
  let point := digits * tenTo exponent.toNat * interval.scale
  let tenth := tenTo (-exponent).toNat
  let lower := interval.lower * tenth
  let upper := interval.upper * tenth
  if interval.closed then lower ≤ point && point ≤ upper else lower < point && point < upper

/-- Of the two decimals around the number, `digits` and `digits + 1` units of `10 ^ exponent`, the
digits of the nearer one. -/
def nearer (interval : Interval) (tie : Tie) (digits : Nat) (exponent : Int) : Nat :=
  let value := 2 * interval.value * tenTo (-exponent).toNat
  let halfway := (2 * digits + 1) * tenTo exponent.toNat * interval.scale
  if value < halfway || (value == halfway && tie.keepsBelow digits) then digits else digits + 1

/-- The whole number of units of `10 ^ exponent` in the number. -/
def units (interval : Interval) (exponent : Int) : Nat :=
  interval.value * tenTo (-exponent).toNat / (tenTo exponent.toNat * interval.scale)

/-- The nearest decimal with the given exponent that reads back, if there is one. Only the two
decimals next to the number need a look: the others are further away on the same side. -/
def nearest? (interval : Interval) (tie : Tie) (exponent : Int) : Option Decimal :=
  let below := interval.units exponent
  match interval.admits below exponent, interval.admits (below + 1) exponent with
  | true, true => some ⟨interval.nearer tie below exponent, exponent⟩
  | true, false => some ⟨below, exponent⟩
  | false, true => some ⟨below + 1, exponent⟩
  | false, false => none

/-- The first exponent, going down from `exponent`, at which a decimal reads back. -/
def firstFit (interval : Interval) (tie : Tie) : Nat → Int → Decimal
  | 0, exponent => ⟨interval.units exponent, exponent⟩
  | steps + 1, exponent =>
    (interval.nearest? tie exponent).getD (interval.firstFit tie steps (exponent - 1))

/-- How many places the number starts before the decimal point: `10 ^ (n - 1) ≤ value < 10 ^ n`
for the result `n`, which is zero or negative for a number below one tenth. -/
def places (interval : Interval) : Int :=
  let whole := interval.value / interval.scale
  if whole ≠ 0 then (Nat.toDigits 10 whole).length
  else 1 - descend 400 interval.value 0
where
  /-- How often the number is multiplied by ten before it reaches one. -/
  descend : Nat → Nat → Nat → Nat
    | 0, _, count => count
    | fuel + 1, numerator, count =>
      if interval.scale ≤ numerator then count else descend fuel (10 * numerator) (count + 1)

end Interval

/-- The shortest decimal of a positive number, nearest first; seventeen digits always suffice. -/
def shortest (tie : Tie) (significand : Nat) (exponent : Int) : Decimal :=
  let interval := Interval.around significand exponent
  interval.firstFit tie 17 (interval.places - 1)

namespace Decimal

/-- The digits without trailing zeros, and where the point stands: the value is `0.d₁d₂… * 10 ^
point`. -/
def significant (decimal : Decimal) : List Char × Int :=
  let digits := Nat.toDigits 10 decimal.digits
  let kept := (digits.reverse.dropWhile (· == '0')).reverse
  (kept, decimal.exponent + digits.length)

/-- Positional notation: zeros fill the places between the digits and the point. -/
def positional (digits : List Char) (point : Int) : List Char :=
  if point ≤ 0 then
    '0' :: '.' :: (List.replicate (-point).toNat '0' ++ digits)
  else
    let whole := point.toNat
    if digits.length ≤ whole then
      digits ++ List.replicate (whole - digits.length) '0'
    else
      digits.take whole ++ '.' :: digits.drop whole

/-- One digit before the point, then the exponent with its sign. -/
def scientific (digits : List Char) (point : Int) : List Char :=
  let mantissa :=
    match digits with
    | first :: second :: rest => first :: '.' :: second :: rest
    | short => short
  let exponent := point - 1
  let sign := if exponent < 0 then '-' else '+'
  mantissa ++ 'e' :: sign :: Nat.toDigits 10 exponent.natAbs

end Decimal

/-- How a number is written inside a string. Both zeros are written alike. -/
def text (number : Float) : String :=
  match exact number with
  | .notANumber => "NaN"
  | .infinite negative => if negative then "-Infinity" else "Infinity"
  | .finite negative significand exponent =>
    if significand = 0 then "0" else
      let (digits, point) := (shortest .away significand exponent).significant
      let magnitude :=
        if number.abs < 1e-6 || 1e21 ≤ number.abs then Decimal.scientific digits point
        else Decimal.positional digits point
      String.ofList (if negative then '-' :: magnitude else magnitude)

end Glean.Number
