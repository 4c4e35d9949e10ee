import Glean.Box.Basic
import Glean.Data

/-!
# Static boxes

A box is static when it holds neither conditionals nor unresolvable parts; it then is a value of a
data file.
-/

namespace Glean.Box

mutual

/-- The value of a static box. -/
def toData? : Box → Option Data
  | literal value _ => some value.toData
  | list items _ => (dataOfItems? items).map .list
  | map entries _ => (dataOfEntries? entries).map .object
  | conditional .. | unresolvable .. => none

/-- The values of static items. -/
def dataOfItems? : List Box → Option (List Data)
  | [] => some []
  | item :: rest => do
    let value ← item.toData?
    let others ← dataOfItems? rest
    some (value :: others)

/-- The values of static entries. -/
def dataOfEntries? : List (String × Box) → Option (List (String × Data))
  | [] => some []
  | (key, box) :: rest => do
    let value ← box.toData?
    let others ← dataOfEntries? rest
    some ((key, value) :: others)

end

end Glean.Box
