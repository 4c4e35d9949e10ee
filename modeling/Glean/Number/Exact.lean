/-!
# The exact value of a number

A number is a binary64 word. `exact` reads the word as what it denotes: nothing, a signed
infinity, or a sign with a significand and a binary exponent. Questions about size and
divisibility (is it an integer, what is its integer part, what remains after a division) are then
answered in whole-number arithmetic, with no rounding in between.
-/

namespace Glean.Number

/-- A power of two. -/
def twoTo (exponent : Nat) : Nat := Nat.pow 2 exponent

/-- What a binary64 word denotes. -/
inductive Exact where
  /-- The result of an operation without a value. -/
  | notANumber
  /-- Beyond every finite number on one side. -/
  | infinite (negative : Bool)
  /-- The value `significand * 2 ^ exponent` under a sign; a zero keeps its sign. -/
  | finite (negative : Bool) (significand : Nat) (exponent : Int)
deriving DecidableEq, Repr

/-- Reads sign, exponent and fraction of the word; the leading bit of a normal significand is
not stored, so it is put back here. -/
def exact (number : Float) : Exact :=
  let word := number.toBits.toNat
  let negative := word / twoTo 63 % 2 == 1
  let exponent : Nat := word / twoTo 52 % twoTo 11
  let fraction := word % twoTo 52
  if exponent = 2047 then
    if fraction = 0 then .infinite negative else .notANumber
  else if exponent = 0 then
    .finite negative fraction (-1074)
  else
    .finite negative (fraction + twoTo 52) (exponent - 1075)

/-- A whole number under a sign. -/
def signed (negative : Bool) (magnitude : Nat) : Int :=
  if negative then -magnitude else magnitude

/-- The integer part, towards zero; an infinity and an undefined number have none. -/
def truncate? (number : Float) : Option Int :=
  match exact number with
  | .finite negative significand exponent =>
    some (signed negative (significand * twoTo exponent.toNat / twoTo (-exponent).toNat))
  | _ => none

/-- The number as an integer, when it is one. -/
def toInt? (number : Float) : Option Int :=
  match exact number with
  | .finite negative significand exponent =>
    let scaled := significand * twoTo exponent.toNat
    let unit := twoTo (-exponent).toNat
    if scaled % unit = 0 then some (signed negative (scaled / unit)) else none
  | _ => none

/-- The integer of `2 ^ 32` values around zero that is congruent to `value`. -/
def wrap32 (value : Int) : Int := value.bmod (twoTo 32)

/-- The integer in `[-2 ^ 63, 2 ^ 63)` nearest to the integer part; an undefined number counts
as zero and an infinity as the end on its side. -/
def saturate64 (number : Float) : Int :=
  match exact number with
  | .notANumber => 0
  | .infinite negative => if negative then -twoTo 63 else twoTo 63 - 1
  | .finite .. => max (-twoTo 63) (min (twoTo 63 - 1) ((truncate? number).getD 0))

/-- What remains of `left` after taking `right` away from it a whole number of times, with the
sign of `left`. Both are brought to one binary exponent, where the remainder is that of whole
numbers and therefore exact. -/
def remainder (left right : Float) : Float :=
  match exact left, exact right with
  | .finite negative significand exponent, .finite _ modulus modulusExponent =>
    if modulus = 0 then 0 / 0 else
      let common := min exponent modulusExponent
      let rest := significand * twoTo (exponent - common).toNat %
        (modulus * twoTo (modulusExponent - common).toNat)
      let magnitude := (Float.ofNat rest).scaleB common
      if negative then -magnitude else magnitude
  | .finite .., .infinite _ => left
  | _, _ => 0 / 0

/-- The larger of two numbers; an undefined one gives way to the other, and of two equal ones
the second is kept, which shows in the sign of a zero. -/
def larger (left right : Float) : Float :=
  if left.isNaN || left ≤ right then right else left

/-- The smaller of two numbers, with the rules of `larger`. -/
def smaller (left right : Float) : Float :=
  if left.isNaN || right ≤ left then right else left

/-- The nearest integer; a half goes up, also below zero. -/
def roundHalfUp (number : Float) : Float :=
  let away := number.round
  if away - number == -0.5 then away + 1 else away

end Glean.Number
