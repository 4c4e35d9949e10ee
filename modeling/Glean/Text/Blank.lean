/-!
# Blank characters

The characters with the property `White_Space`. The byte order mark and the zero-width space do
not have it.
-/

namespace Glean.Text

/-- Whether a character has the property `White_Space`. -/
def isBlank (c : Char) : Bool :=
  let code := c.toNat
  (0x9 ≤ code && code ≤ 0xD) || code == 0x20 || code == 0x85 || code == 0xA0 ||
    code == 0x1680 || (0x2000 ≤ code && code ≤ 0x200A) || code == 0x2028 || code == 0x2029 ||
    code == 0x202F || code == 0x205F || code == 0x3000

/-- The text without the blank characters at both ends. -/
def trim (text : String) : String :=
  String.ofList ((text.toList.dropWhile isBlank).reverse.dropWhile isBlank).reverse

end Glean.Text
