import Glean.Box.Alternatives

/-!
# Reading a member

`Box.read` is the member of a value under a key: an entry of a map, an item or the length of a
list, a character or the length of a text. What is not there reads as undefined, a conditional is
read branch by branch, and of an unresolvable value nothing is known.
-/

namespace Glean

/-- The place of an item that a key names: a whole number that is not negative, or a numeral of
digits alone, with an optional plus sign, that fits a word. -/
def Primitive.position? : Primitive → Option Nat
  | number value =>
    match Number.toInt? value with
    | some (.ofNat position) => some position
    | _ => none
  | string text =>
    let (negative, digits) := Number.Numeral.sign text.toList
    match Number.Numeral.digits 0 0 digits with
    | (position, _ + 1, []) =>
      if negative || Number.twoTo 64 ≤ position then none else some position
    | _ => none
  | _ => none

namespace Box

/-- The key that reads the length of a list or text. -/
def lengthKey : Primitive := .string "length"

/-- The member of a value that is not conditional. -/
def readLeaf (key : Primitive) (node : Reference) : Box → Box
  | map entries _ => (Entries.get? entries key.toText).getD (literal .undefined (some node))
  | list items _ =>
    if key = lengthKey then literal (.number (.ofNat items.length)) (some node)
    else (key.position?.bind (items[·]?)).getD (literal .undefined (some node))
  | literal (.string value) _ =>
    if key = lengthKey then literal (.number (.ofNat (Text.unitCount value))) (some node)
    else
      match key.position?.bind (value.toList[·]?) with
      | some c => text (String.singleton c) (some node)
      | none => literal .undefined (some node)
  | literal _ _ => literal .undefined (some node)
  | box => box

/-- The member of a box under a key, read at a node. -/
def read (box : Box) (key : Primitive) (node : Reference) : Box :=
  box.distribute node (readLeaf key node)

end Box

end Glean
