import Glean.Number.Decimal
import Glean.Number.Numeral
import Glean.Text.Blank
import Glean.Text.Quoted
import Glean.Text.Units

/-!
# Primitive values

Strings, numbers, booleans and the two values for nothing, with the conversions and the three
equalities that operators use. `same` is the equality of boxes: it is the strict one, except that
an undefined number is the same as itself.
-/

namespace Glean

/-- A primitive value. -/
inductive Primitive where
  | string (value : String)
  | number (value : Float)
  | boolean (value : Bool)
  | null
  | undefined
deriving DecidableEq, Inhabited

namespace Primitive

/-- Whether a condition takes the value as true. -/
def truthy : Primitive → Bool
  | string value => !value.isEmpty
  | number value => value != 0 && !value.isNaN
  | boolean value => value
  | null | undefined => false

/-- Whether the value is one of the two values for nothing. -/
def nullish : Primitive → Bool
  | null | undefined => true
  | _ => false

/-- The number a text stands for: zero when nothing but blanks is left of it, and otherwise the
value of the numeral between the blanks. -/
def numberOfText (text : String) : Float :=
  let trimmed := Text.trim text
  if trimmed.isEmpty then 0 else (Number.parse? trimmed).getD Number.notANumber

/-- The value as an operand of arithmetic. -/
def toNumber : Primitive → Float
  | string value => numberOfText value
  | number value => value
  | boolean value => if value then 1 else 0
  | null => 0
  | undefined => Number.notANumber

/-- The value as a part of a text. -/
def toText : Primitive → String
  | string value => value
  | number value => Number.text value
  | boolean value => if value then "true" else "false"
  | null => "null"
  | undefined => "undefined"

/-- The name of the value's type; `null` counts as an object. -/
def typeName : Primitive → String
  | string _ => "string"
  | number _ => "number"
  | boolean _ => "boolean"
  | null => "object"
  | undefined => "undefined"

/-- Equality without conversion. An undefined number differs from itself; both zeros are equal. -/
def strictEquals : Primitive → Primitive → Bool
  | string a, string b => a == b
  | number a, number b => a == b
  | boolean a, boolean b => a == b
  | null, null => true
  | undefined, undefined => true
  | _, _ => false

/-- Equality with conversion: the two values for nothing equal each other and nothing else, two
strings are compared as they are, and everything else as numbers. -/
def looseEquals (a b : Primitive) : Bool :=
  if a.nullish || b.nullish then a.nullish && b.nullish
  else
    match a, b with
    | string a, string b => a == b
    | a, b => a.toNumber == b.toNumber

/-- Strict equality made reflexive: an undefined number is the same as itself. -/
def same : Primitive → Primitive → Bool
  | number a, number b => a == b || (a.isNaN && b.isNaN)
  | a, b => a.strictEquals b

/-- How the value is shown: strings in quotes, everything else as its text. -/
def display : Primitive → String
  | string value => Text.quoted value
  | value => value.toText

end Primitive

end Glean
