import Glean.Box.Basic

/-!
# Spreading into lists and maps

`Box.spreadItems` are the items that a spread value contributes to a list, and `Box.spread` adds
the entries that it contributes to a map to the entries before it. For a conditional value both
outcomes are worked out, and every key on which they differ becomes conditional.
-/

namespace Glean.Box

/-- The entries of a list or text under its positions. -/
def positional (items : List Box) : Entries String Box :=
  items.zipIdx.map fun (item, position) => (toString position, item)

/-- The characters of a text, each a text that comes from the same node. -/
def characters (value : String) (node : Option Reference) : List Box :=
  value.toList.map fun c => text (String.singleton c) node

/-- The items that a spread value contributes to a list. A primitive other than a text contributes
an unresolvable item from its own node, and a map or conditional one from the node of the spread
expression. -/
def spreadItems (node : Reference) : Box → List Box
  | list items _ => items
  | literal (.string value) origin => characters value origin
  | literal _ origin => [unresolvable .unsupported origin]
  | unresolvable reason origin => [unresolvable reason origin]
  | map .. | conditional .. => [unresolvable .unsupported (some node)]

/-- The value under a key when one of two outcomes holds: the common value if they agree, and one
or the other otherwise. -/
def either (condition : Option Reference) (node : Reference) (whenTrue whenFalse : Box) : Box :=
  if whenTrue == whenFalse then whenTrue
  else conditional whenTrue whenFalse condition (some node)

/-- The entries when one of two outcomes holds: the keys of the first, then those that only the
second has. A key that one outcome lacks is undefined there. -/
def merge (condition : Option Reference) (node : Reference)
    (whenTrue whenFalse : Entries String Box) : Entries String Box :=
  let added := (Entries.keys whenFalse).filter fun key => !Entries.contains whenTrue key
  (Entries.keys whenTrue ++ added).map fun key =>
    (key, either condition node ((Entries.get? whenTrue key).getD missing)
      ((Entries.get? whenFalse key).getD missing))

/-- Adds what a spread value contributes to the entries before it. An unresolvable value goes
under the key `fallback`; primitives other than texts contribute nothing. -/
def spread (fallback : String) (node : Reference) (entries : Entries String Box) :
    Box → Entries String Box
  | map contributed _ => Entries.insertAll entries contributed
  | list items _ => Entries.insertAll entries (positional items)
  | literal (.string value) origin =>
    Entries.insertAll entries (positional (characters value origin))
  | literal .. => entries
  | conditional whenTrue whenFalse condition _ =>
    merge condition node (whenTrue.spread fallback node entries)
      (whenFalse.spread fallback node entries)
  | box => Entries.insert entries fallback box

end Glean.Box
