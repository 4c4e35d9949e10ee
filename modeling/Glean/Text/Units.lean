/-!
# Sixteen-bit units

Length and order of a text in units of sixteen bits: a character beyond `U+FFFF` takes two units,
both from the surrogate range. The order differs from that of the characters where a surrogate
meets a character above that range.
-/

namespace Glean.Text

/-- The one or two sixteen-bit units of a character. -/
def units (c : Char) : List Nat :=
  let code := c.toNat
  if code < 0x10000 then [code]
  else
    let offset := code - 0x10000
    [0xD800 + offset / 0x400, 0xDC00 + offset % 0x400]

/-- All units of a text in order. -/
def allUnits (text : String) : List Nat := text.toList.flatMap units

/-- The number of units of a text. -/
def unitCount (text : String) : Nat := (allUnits text).length

/-- Lexicographic order of two lists of units. -/
def compareUnits : List Nat → List Nat → Ordering
  | [], [] => .eq
  | [], _ :: _ => .lt
  | _ :: _, [] => .gt
  | a :: left, b :: right => (compare a b).then (compareUnits left right)

/-- Order of two texts by their units. -/
def compareByUnits (left right : String) : Ordering :=
  compareUnits (allUnits left) (allUnits right)

end Glean.Text
