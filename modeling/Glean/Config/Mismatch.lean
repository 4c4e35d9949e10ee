import Glean.Json
import Glean.Number.Decimal
import Glean.Number.Numeral
import Glean.Text.Quoted

/-!
# Messages about configurations

A value of the wrong type is described by what it is and what was expected in its place.
-/

namespace Glean.Json

/-- How a number that is no integer is written in a message: positional up to sixteen places
before the point and four zeros after it, with at least one digit behind the point. Of two equally
near decimals the even one is taken. -/
def decimalText (number : Float) : String :=
  match Number.exact number with
  | .finite negative significand exponent =>
    let magnitude :=
      if significand = 0 then "0.0".toList
      else
        let (digits, point) := (Number.shortest .even significand exponent).significant
        if -5 < point ∧ point ≤ 16 then
          let written := Number.Decimal.positional digits point
          if digits.length ≤ point then written ++ ['.', '0'] else written
        else
          (Number.Decimal.scientific digits point).filter (· ≠ '+')
    String.ofList (if negative then '-' :: magnitude else magnitude)
  | _ => Number.text number

/-- The integer that a numeral without point and exponent denotes. -/
def integer? (text : String) : Option Int :=
  let (negative, digits) := Number.Numeral.sign text.toList
  match Number.Numeral.digits 0 0 digits with
  | (value, _ + 1, []) => some (if negative then -value else value)
  | _ => none

/-- Whether a numeral is an integer that fits sixty-four bits. A negative zero is none. -/
def isInteger (text : String) : Bool :=
  match integer? text with
  | some value =>
    -(Number.twoTo 63 : Int) ≤ value && value < Number.twoTo 64 &&
      !(value == 0 && text.startsWith "-")
  | none => false

/-- What a value is, in a message. -/
def describe : Json → String
  | null => "null"
  | boolean value => "boolean \x60" ++ (if value then "true" else "false") ++ "\x60"
  | number text =>
    if isInteger text then "integer \x60" ++ text ++ "\x60"
    else
      "floating point \x60" ++ decimalText ((Number.parse? text).getD Number.notANumber) ++ "\x60"
  | string value => "string " ++ Text.quoted value
  | array _ => "sequence"
  | object _ => "map"

/-- The message for a value of the wrong type. -/
def mismatch (value : Json) (expected : String) : String :=
  "invalid type: " ++ value.describe ++ ", expected " ++ expected

end Glean.Json
