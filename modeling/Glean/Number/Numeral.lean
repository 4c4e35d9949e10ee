/-!
# Numerals

`parse?` reads a signed decimal numeral: digits with an optional point (on either side of it
digits may be missing, not on both), then an optional power of ten. The words for infinity and
for an undefined number are numerals too, in any case. Digits are collected as a whole number
and a power of ten, and the value is rounded once, at the end.
-/

namespace Glean.Number

/-- An undefined number. -/
def notANumber : Float := 0 / 0

/-- Beyond every finite number. -/
def infinity : Float := 1 / 0

namespace Numeral

/-- Reads digits onto `value`, counting them. -/
def digits (value count : Nat) : List Char → Nat × Nat × List Char
  | [] => (value, count, [])
  | c :: rest =>
    if c.isDigit then digits (10 * value + (c.toNat - '0'.toNat)) (count + 1) rest
    else (value, count, c :: rest)

/-- A sign in front of a text; without one the text is positive. -/
def sign : List Char → Bool × List Char
  | '-' :: rest => (true, rest)
  | '+' :: rest => (false, rest)
  | text => (false, text)

/-- A power of ten up to the end of the text; no text means the power zero. -/
def power? : List Char → Option Int
  | [] => some 0
  | mark :: rest =>
    if mark = 'e' ∨ mark = 'E' then
      let (negative, rest) := sign rest
      match digits 0 0 rest with
      | (_, 0, _) => none
      | (value, _, []) => some (if negative then -value else value)
      | _ => none
    else none

/-- A whole number of units and the power of ten of one unit. -/
def unsigned? (text : List Char) : Option (Nat × Int) :=
  let (whole, before, rest) := digits 0 0 text
  let (value, after, rest) :=
    match rest with
    | '.' :: rest => digits whole 0 rest
    | rest => (whole, 0, rest)
  if before + after = 0 then none
  else (power? rest).map fun power => (value, power - after)

/-- The number nearest to `units * 10 ^ power`. -/
def value (units : Nat) (power : Int) : Float :=
  .ofScientific units (power < 0) power.natAbs

end Numeral

/-- The number that a numeral denotes; `none` for any other text. -/
def parse? (text : String) : Option Float :=
  let (negative, rest) := Numeral.sign text.toList
  let apply (magnitude : Float) : Float := if negative then -magnitude else magnitude
  let word := rest.map Char.toLower
  if word = "inf".toList ∨ word = "infinity".toList then some (apply infinity)
  else if word = "nan".toList then some (apply notANumber)
  else (Numeral.unsigned? rest).map fun (units, power) => apply (Numeral.value units power)

end Glean.Number
