import Glean.Text.Units

/-!
# Positions in a text

Texts are addressed by the bytes of their encoding. A place between two characters has a line and
a column, in units of sixteen bits; a place inside a character has neither.

A line starts after a line feed, after a carriage return and a line feed, and after a carriage
return alone, except at the very end of the text. An empty text has no line, so its only place is
on line zero.
-/

namespace Glean.Text

/-- Line and column of a place; both count from one. -/
structure Location where
  /-- The number of lines started up to the place. -/
  line : Nat
  /-- One more than the number of sixteen-bit units before the place on its line. -/
  column : Nat
deriving DecidableEq, Repr

/-- The characters after the first `count` bytes, when those end with a character. -/
def dropBytes : Nat → List Char → Option (List Char)
  | 0, text => some text
  | _ + 1, [] => none
  | count + 1, c :: rest =>
    if c.utf8Size ≤ count + 1 then dropBytes (count + 1 - c.utf8Size) rest else none

/-- The characters of the first `count` bytes, when those end with a character. -/
def takeBytes : Nat → List Char → Option (List Char)
  | 0, _ => some []
  | _ + 1, [] => none
  | count + 1, c :: rest =>
    if c.utf8Size ≤ count + 1 then (takeBytes (count + 1 - c.utf8Size) rest).map (c :: ·) else none

/-- The text between two byte offsets. -/
def slice? (text : String) (start stop : Nat) : Option String := do
  let rest ← dropBytes start text.toList
  let inner ← takeBytes (stop - start) rest
  some (String.ofList inner)

/-- Whether a new line starts after a character, seen with the characters that follow it. -/
def endsLine (c : Char) (rest : List Char) : Bool :=
  !rest.isEmpty && (c == '\n' || (c == '\r' && rest.head? != some '\n'))

/-- The place after a character, seen with the characters that follow it. -/
def Location.after (place : Location) (c : Char) (rest : List Char) : Location :=
  if endsLine c rest then ⟨place.line + 1, 1⟩
  else ⟨place.line, place.column + (units c).length⟩

/-- The place that lies `count` bytes after a place at the start of `text`. -/
def advance (place : Location) : Nat → List Char → Option Location
  | 0, _ => some place
  | _ + 1, [] => none
  | count + 1, c :: rest =>
    if c.utf8Size ≤ count + 1 then
      advance (place.after c rest) (count + 1 - c.utf8Size) rest
    else none

/-- The place at a byte offset. -/
def locate? (text : String) (offset : Nat) : Option Location :=
  advance ⟨if text.isEmpty then 0 else 1, 1⟩ offset text.toList

end Glean.Text
