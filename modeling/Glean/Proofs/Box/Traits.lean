import Glean.Proofs.Box.Equality

/-!
# Traits of boxes

A `Box.Trait` restricts what a box may be made of: the reasons for which parts may be unknown,
whether parts may be conditional, and the nodes that parts may come from. A box has the trait when
all its parts keep to it (`Box.Has`).

Operations on boxes only rearrange the parts of their operands, except that what they do not support
becomes unknown and that new parts come from the node of the operation. So they keep every trait that
admits unsupported parts and that node.
-/

namespace Glean.Box

/-- A restriction on the parts of boxes. -/
structure Trait where
  /-- The reasons for which a part may be unknown. -/
  Reasons : Reason → Prop
  /-- Whether a part may be one of two boxes. -/
  Splits : Prop
  /-- The nodes that a part may come from. -/
  Nodes : Reference → Prop := fun _ => True

/-- The node that a part comes from, if there is one, is admitted. -/
def Trait.Origin (trait : Trait) (node : Option Reference) : Prop := ∀ place ∈ node, trait.Nodes place

/-- Every part of a box keeps to a trait. -/
inductive Has (trait : Trait) : Box → Prop where
  | literal {node : Option Reference} (value : Primitive) (origin : trait.Origin node) :
    Has trait (literal value node)
  | list {items : List Box} {node : Option Reference} (each : ∀ item ∈ items, Has trait item)
    (origin : trait.Origin node) : Has trait (list items node)
  | map {entries : Entries String Box} {node : Option Reference}
    (each : ∀ entry ∈ entries, Has trait entry.2) (origin : trait.Origin node) :
    Has trait (map entries node)
  | conditional {whenTrue whenFalse : Box} {condition node : Option Reference}
    (splits : trait.Splits) (yes : Has trait whenTrue) (no : Has trait whenFalse)
    (asked : trait.Origin condition) (origin : trait.Origin node) :
    Has trait (conditional whenTrue whenFalse condition node)
  | unresolvable {reason : Reason} {node : Option Reference} (admitted : trait.Reasons reason)
    (origin : trait.Origin node) : Has trait (unresolvable reason node)

/-- All items have a trait. -/
abbrev ItemsHave (trait : Trait) (items : List Box) : Prop := ∀ item ∈ items, Has trait item

/-- The values of all entries have a trait. -/
abbrev EntriesHave (trait : Trait) (entries : Entries String Box) : Prop :=
  ∀ entry ∈ entries, Has trait entry.2

variable {trait : Trait} {box other : Box} {items : List Box} {entries others : Entries String Box}
  {node : Reference} {origin : Option Reference}

/-- What comes from no node has an admitted origin. -/
theorem Trait.Origin.nowhere : trait.Origin none := nofun

/-- An admitted node is an admitted origin. -/
theorem Trait.Origin.here (admitted : trait.Nodes node) : trait.Origin (some node) := by
  intro place same
  obtain rfl := Option.some_inj.1 same
  exact admitted

/-- The trait that restricts nothing. -/
def Trait.any : Trait := { Reasons := fun _ => True, Splits := True }

/-- Every box has the trait that admits everything. -/
theorem has_any (box : Box) : Has .any box := by
  have origin : ∀ node, Trait.any.Origin node := fun _ _ _ => trivial
  induction box with
  | literal value node => exact .literal value (origin node)
  | list items node each => exact .list each (origin node)
  | map entries node each => exact .map each (origin node)
  | conditional whenTrue whenFalse condition node yes no =>
    exact .conditional trivial yes no (origin condition) (origin node)
  | unresolvable reason node => exact .unresolvable trivial (origin node)

/-- What is unknown about a box is so for reasons that its trait admits. -/
theorem Has.reasons (has : Has trait box) : ∀ leaf ∈ box.unresolvables, trait.Reasons leaf.1 := by
  induction has with
  | literal => simp [unresolvables]
  | list _ _ ih =>
    intro leaf found
    rw [unresolvables, unresolvablesOfItems_eq] at found
    obtain ⟨item, listed, found⟩ := List.mem_flatMap.1 found
    exact ih item listed leaf found
  | map _ _ ih =>
    intro leaf found
    rw [unresolvables, unresolvablesOfEntries_eq] at found
    obtain ⟨entry, listed, found⟩ := List.mem_flatMap.1 found
    exact ih entry listed leaf found
  | conditional _ _ _ _ _ yes no =>
    intro leaf found
    exact (List.mem_append.1 found).elim (yes leaf) (no leaf)
  | unresolvable admitted =>
    intro leaf found
    obtain rfl := List.mem_singleton.1 found
    exact admitted

/-! ### Entries -/

/-- What is found under a key has the trait that all values have. -/
theorem EntriesHave.get? (values : EntriesHave trait entries) {key : String}
    (found : Entries.get? entries key = some box) : Has trait box :=
  values _ (Entries.mem_of_get? found)

/-- What is found under a key, or else undefined. -/
theorem EntriesHave.getD (values : EntriesHave trait entries) (key : String)
    (admitted : trait.Origin origin) :
    Has trait ((Entries.get? entries key).getD (.literal .undefined origin)) := by
  cases found : Entries.get? entries key with
  | none => exact .literal _ admitted
  | some value => exact values.get? found

/-- The entries of a box, if it is an object, have its trait. -/
theorem Has.properties (has : Has trait box) : EntriesHave trait (box.entries?.getD []) := by
  cases has with
  | map each => exact each
  | _ => exact nofun

/-- Inserting a value that has the trait preserves that all values have it. -/
theorem EntriesHave.insert (values : EntriesHave trait entries) (key : String)
    (has : Has trait box) : EntriesHave trait (Entries.insert entries key box) := by
  induction entries with
  | nil =>
    intro entry found
    obtain rfl := List.mem_singleton.1 found
    exact has
  | cons first rest ih =>
    obtain ⟨_, value⟩ := first
    intro entry found
    simp only [Entries.insert, Entries.update] at found
    split at found
    · rcases List.mem_cons.1 found with rfl | found
      · exact has
      · exact values entry (List.mem_cons_of_mem _ found)
    · rcases List.mem_cons.1 found with rfl | found
      · exact values _ (List.mem_cons_self ..)
      · exact ih (fun entry listed => values entry (List.mem_cons_of_mem _ listed)) entry found

/-- Inserting pairs whose values have the trait preserves that all values have it. -/
theorem EntriesHave.insertAll (values : EntriesHave trait entries)
    (added : EntriesHave trait others) :
    EntriesHave trait (Entries.insertAll entries others) := by
  induction others generalizing entries with
  | nil => exact values
  | cons pair rest ih =>
    have first := values.insert pair.1 (added pair (List.mem_cons_self ..))
    exact ih first fun entry listed => added entry (List.mem_cons_of_mem _ listed)

/-- Items that have the trait have it under their positions. -/
theorem ItemsHave.positional (values : ItemsHave trait items) :
    EntriesHave trait (positional items) := by
  intro entry found
  obtain ⟨⟨item, position⟩, listed, rfl⟩ := List.mem_map.1 found
  exact values item (List.fst_mem_of_mem_zipIdx listed)

/-- The characters of a text have the trait when their origin is admitted. -/
theorem itemsHave_characters (value : String) (admitted : trait.Origin origin) :
    ItemsHave trait (characters value origin) := by
  intro item found
  obtain ⟨c, _, rfl⟩ := List.mem_map.1 found
  exact .literal _ admitted

/-! ### Operations -/

section Operations

variable (place : trait.Nodes node)

include place

/-- A box has the trait after an operation that gives values with the trait. -/
theorem Has.distribute {operation : Box → Box} (has : Has trait box)
    (leaf : ∀ value : Box, Has trait value → Has trait (operation value)) :
    Has trait (box.distribute node operation) := by
  induction has with
  | conditional splits _ _ asked _ yes no =>
    exact .conditional splits yes no asked (.here place)
  | literal value origin => exact leaf _ (.literal value origin)
  | list each origin => exact leaf _ (.list each origin)
  | map each origin => exact leaf _ (.map each origin)
  | unresolvable admitted origin => exact leaf _ (.unresolvable admitted origin)

/-- What is read from a value with the trait has the trait. -/
theorem Has.readLeaf (has : Has trait box) (key : Primitive) :
    Has trait (readLeaf key node box) := by
  have here := Trait.Origin.here place
  cases has with
  | literal value =>
    cases value with
    | string value =>
      simp only [Box.readLeaf]
      split
      · exact .literal _ here
      · split <;> exact .literal _ here
    | _ => exact .literal _ here
  | list each =>
    simp only [Box.readLeaf]
    split
    · exact .literal _ here
    · cases found : key.position?.bind _ with
      | none => exact .literal _ here
      | some item =>
        obtain ⟨position, _, found⟩ := Option.bind_eq_some_iff.1 found
        exact each item (List.mem_of_getElem? found)
  | map each => exact EntriesHave.getD each _ here
  | conditional splits yes no asked origin => exact .conditional splits yes no asked origin
  | unresolvable admitted origin => exact .unresolvable admitted origin

/-- A member of a box is a part of it or comes from a literal. -/
theorem Has.read (has : Has trait box) (key : Primitive) : Has trait (box.read key node) :=
  has.distribute place fun _ value => value.readLeaf place key

section Unsupported

variable (admitted : trait.Reasons .unsupported)

include admitted

/-- A result has the trait, the result that is missing among them. -/
theorem has_ofResult (value : Option Primitive) : Has trait (ofResult node value) := by
  cases value with
  | none => exact .unresolvable admitted (.here place)
  | some => exact .literal _ (.here place)

/-- Operators with one operand preserve the trait. -/
theorem Has.unary (has : Has trait box) (operator : Syntax.Unary) :
    Has trait (box.unary operator node) := by
  have here := Trait.Origin.here place
  refine has.distribute place fun value leaf => ?_
  cases leaf with
  | literal value => exact has_ofResult place admitted _
  | list | map =>
    cases operator <;> first | exact .literal _ here | exact .unresolvable admitted here
  | conditional splits yes no asked origin => exact .conditional splits yes no asked origin
  | unresolvable admitted origin => exact .unresolvable admitted origin

/-- The result for a pair of values with the trait has the trait. -/
theorem Has.binaryLeaf (has : Has trait box) (next : Has trait other)
    (operator : Syntax.Binary) : Has trait (binaryLeaf operator node box other) := by
  have here := Trait.Origin.here place
  cases has <;> cases next <;> simp only [Box.binaryLeaf] <;>
    first | exact has_ofResult place admitted _ | exact .unresolvable ‹_› ‹_›

/-- Operators with two operands preserve the trait. -/
theorem Has.binary (has : Has trait box) (next : Has trait other) (operator : Syntax.Binary) :
    Has trait (Box.binary operator node box other) := by
  rw [Box.binary]
  split
  · exact .unresolvable admitted (.here place)
  · rw [combine_eq]
    split
    · exact has
    · split
      · exact next
      · refine has.distribute place fun value leaf => ?_
        split
        · exact leaf
        · exact next.distribute place fun _ nextLeaf =>
            leaf.binaryLeaf place admitted nextLeaf operator

/-- The items of a spread have the trait of the box. -/
theorem Has.spreadItems (has : Has trait box) : ItemsHave trait (box.spreadItems node) := by
  have one : ∀ {reason origin}, trait.Reasons reason → trait.Origin origin →
      ItemsHave trait [Box.unresolvable reason origin] :=
    fun admitted origin _ found => List.mem_singleton.1 found ▸ .unresolvable admitted origin
  have here := Trait.Origin.here place
  cases has with
  | literal value origin =>
    cases value with
    | string value => exact itemsHave_characters value origin
    | _ => exact one admitted origin
  | list each => exact each
  | map | conditional => exact one admitted here
  | unresolvable admitted origin => exact one admitted origin

end Unsupported

/-- Merging branches with the trait gives entries with the trait, if it admits choices. -/
theorem EntriesHave.merge (splits : trait.Splits) (yes : EntriesHave trait entries)
    (no : EntriesHave trait others) (asked : trait.Origin origin) :
    EntriesHave trait (merge origin node entries others) := by
  intro entry found
  obtain ⟨key, _, rfl⟩ := List.mem_map.1 found
  have first := yes.getD key Trait.Origin.nowhere
  have second := no.getD key Trait.Origin.nowhere
  simp only [either]
  split
  · exact first
  · exact .conditional splits first second asked (.here place)

/-- What a box contributes to entries are its parts, or conditionals of them when it is one. -/
theorem Has.spread (has : Has trait box) (before : EntriesHave trait entries) (fallback : String) :
    EntriesHave trait (box.spread fallback node entries) := by
  induction has with
  | literal value origin =>
    cases value with
    | string value => exact before.insertAll (itemsHave_characters value origin).positional
    | _ => exact before
  | list each => exact before.insertAll (ItemsHave.positional each)
  | map each => exact before.insertAll each
  | conditional splits _ _ asked _ yes no => exact .merge place splits yes no asked
  | unresolvable admitted origin => exact before.insert fallback (.unresolvable admitted origin)

end Operations

end Glean.Box
