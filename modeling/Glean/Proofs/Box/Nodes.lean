import Glean.Box.Operators
import Glean.Box.Reading
import Glean.Box.Spread
import Glean.Proofs.Entries

/-!
# What boxes show of their nodes

A `View` says what is looked at of the nodes that boxes come from: with `View.full` everything, with
`View.blind` nothing. Two boxes are alike under a view when they look the same (`Box.Alike`).

No operation on boxes depends on nodes, except that it passes them on. So reading, spreading and the
operators take alike boxes to alike boxes, whichever view is taken.
-/

namespace Glean

/-- What is looked at of the nodes that boxes come from. -/
structure View where
  /-- What is seen in place of a node. -/
  see : Option Reference → Option Reference
  /-- Looking again shows nothing new. -/
  see_see : ∀ node, see (see node) = see node

namespace View

/-- Every node is seen as it is. -/
def full : View := ⟨id, fun _ => rfl⟩

/-- No node is seen. -/
def blind : View := ⟨fun _ => none, fun _ => rfl⟩

end View

namespace Box

/-- Induction on boxes: what holds of all items, values and branches of a box holds of the box. -/
@[induction_eliminator]
theorem induction {motive : Box → Prop}
    (literal : ∀ value node, motive (.literal value node))
    (list : ∀ items node, (∀ item ∈ items, motive item) → motive (.list items node))
    (map : ∀ entries node, (∀ entry ∈ entries, motive entry.2) → motive (.map entries node))
    (conditional : ∀ whenTrue whenFalse condition node, motive whenTrue → motive whenFalse →
      motive (.conditional whenTrue whenFalse condition node))
    (unresolvable : ∀ reason node, motive (.unresolvable reason node)) : ∀ box, motive box
  | .literal value node => literal value node
  | .list items node =>
    list items node fun item _ => induction literal list map conditional unresolvable item
  | .map entries node =>
    map entries node fun entry _ => induction literal list map conditional unresolvable entry.2
  | .conditional whenTrue whenFalse condition node =>
    conditional whenTrue whenFalse condition node
      (induction literal list map conditional unresolvable whenTrue)
      (induction literal list map conditional unresolvable whenFalse)
  | .unresolvable reason node => unresolvable reason node
termination_by box => sizeOf box
decreasing_by
  · have := List.sizeOf_lt_of_mem ‹item ∈ items›
    simp; omega
  · have := List.sizeOf_lt_of_mem ‹entry ∈ entries›
    have : sizeOf entry.2 < sizeOf entry := by cases entry; simp +arith
    simp; omega
  all_goals simp +arith

variable {view : View}

mutual

/-- The box with every node as it is seen. -/
def seen (view : View) : Box → Box
  | literal value node => literal value (view.see node)
  | list items node => list (seenItems view items) (view.see node)
  | map entries node => map (seenEntries view entries) (view.see node)
  | conditional whenTrue whenFalse condition node =>
    conditional (whenTrue.seen view) (whenFalse.seen view) (view.see condition) (view.see node)
  | unresolvable reason node => unresolvable reason (view.see node)

/-- The items of a list with every node as it is seen. -/
def seenItems (view : View) : List Box → List Box
  | [] => []
  | item :: rest => item.seen view :: seenItems view rest

/-- The entries of a map with every node as it is seen. -/
def seenEntries (view : View) : Entries String Box → Entries String Box
  | [] => []
  | (key, value) :: rest => (key, value.seen view) :: seenEntries view rest

end

/-- Items are seen one by one. -/
theorem seenItems_eq (items : List Box) : seenItems view items = items.map (seen view) := by
  induction items with
  | nil => rfl
  | cons item rest ih => simp [seenItems, ih]

/-- Entries are seen value by value. -/
theorem seenEntries_eq (entries : Entries String Box) :
    seenEntries view entries = Entries.mapValues (seen view) entries := by
  induction entries with
  | nil => rfl
  | cons entry rest ih => simp [seenEntries, Entries.mapValues, ih]

/-- A literal is seen with its value, its node as the view sees it. -/
@[simp]
theorem seen_literal (value : Primitive) (node : Option Reference) :
    (literal value node).seen view = literal value (view.see node) := by
  rw [seen]

/-- A list is seen item by item. -/
@[simp]
theorem seen_list (items : List Box) (node : Option Reference) :
    (list items node).seen view = list (items.map (seen view)) (view.see node) := by
  rw [seen, seenItems_eq]

/-- A map is seen value by value under the same keys. -/
@[simp]
theorem seen_map (entries : Entries String Box) (node : Option Reference) :
    (map entries node).seen view =
      map (Entries.mapValues (seen view) entries) (view.see node) := by
  rw [seen, seenEntries_eq]

/-- A conditional is seen branch by branch. -/
@[simp]
theorem seen_conditional (whenTrue whenFalse : Box) (condition node : Option Reference) :
    (conditional whenTrue whenFalse condition node).seen view =
      conditional (whenTrue.seen view) (whenFalse.seen view) (view.see condition)
        (view.see node) := by
  rw [seen]

/-- What is not known is seen with its reason. -/
@[simp]
theorem seen_unresolvable (reason : Reason) (node : Option Reference) :
    (unresolvable reason node).seen view = unresolvable reason (view.see node) := by
  rw [seen]

/-- Looking at a box that was looked at shows nothing new. -/
@[simp]
theorem seen_seen (box : Box) : (box.seen view).seen view = box.seen view := by
  induction box with
  | literal value node => simp [view.see_see]
  | list items node each =>
    simp only [seen_list, view.see_see, List.map_map, list.injEq, and_true]
    exact List.map_congr_left each
  | map entries node each =>
    simp only [seen_map, view.see_see, Entries.mapValues, List.map_map, map.injEq, and_true]
    exact List.map_congr_left fun entry found => by simp [each entry found]
  | conditional whenTrue whenFalse condition node first second =>
    simp [view.see_see, first, second]
  | unresolvable reason node => simp [view.see_see]

/-- With every node in view a box is seen as it is. -/
@[simp]
theorem seen_full (box : Box) : box.seen View.full = box := by
  induction box with
  | literal value node => simp [View.full]
  | list items node each =>
    simp only [seen_list, View.full, id, list.injEq, and_true]
    exact (List.map_congr_left each).trans (List.map_id _)
  | map entries node each =>
    simp only [seen_map, View.full, id, Entries.mapValues, map.injEq, and_true]
    refine (List.map_congr_left fun entry found => ?_).trans (List.map_id _)
    exact Prod.ext rfl (each entry found)
  | conditional whenTrue whenFalse condition node first second =>
    simp [View.full] at first second ⊢
    exact ⟨first, second⟩
  | unresolvable reason node => simp [View.full]

/-! ### Questions about a box do not look at nodes -/

/-- A view shows the reason. -/
@[simp]
theorem reason?_seen (box : Box) : (box.seen view).reason? = box.reason? := by
  cases box <;> simp [reason?]

/-- A view shows whether a box is known. -/
@[simp]
theorem isUnresolvable_seen (box : Box) : (box.seen view).isUnresolvable = box.isUnresolvable := by
  simp [isUnresolvable]

/-- The alternatives of what is seen are the alternatives, seen. -/
theorem possible_seen (box : Box) : (box.seen view).possible = box.possible.map (seen view) := by
  induction box with
  | conditional whenTrue whenFalse condition node first second =>
    simp [possible, first, second]
  | _ => simp [possible]

/-- A box has an alternative. -/
theorem possible_ne_nil (box : Box) : box.possible ≠ [] := by
  induction box with
  | conditional _ _ _ _ first _ => simp [possible, first]
  | _ => simp [possible]

/-- An alternative is not conditional itself. -/
theorem branches?_of_possible {box value : Box} (found : value ∈ box.possible) :
    value.branches? = none := by
  induction box with
  | conditional _ _ _ _ first second => exact (List.mem_append.1 found).elim first second
  | _ =>
    obtain rfl := List.mem_singleton.1 found
    rfl

/-- What is not conditional is its only alternative. -/
theorem possible_of_value {box : Box} (single : box.branches? = none) : box.possible = [box] := by
  cases box with
  | conditional => cases single
  | _ => rfl

/-- An answer is agreed on when every alternative gives it. -/
theorem agreed_eq_some {box : Box} {question : Box → Option Bool} {answer : Bool} :
    agreed question box = some answer ↔
      ∀ value ∈ box.possible, question value = some answer := by
  obtain ⟨first, rest, listed⟩ := List.exists_cons_of_ne_nil box.possible_ne_nil
  simp only [agreed, listed, List.map_cons, List.mem_cons, forall_eq_or_imp]
  cases question first with
  | none => simp
  | some given =>
    simp only [Option.some.injEq]
    constructor
    · intro agreement
      split at agreement
      · rename_i all
        obtain rfl := Option.some_inj.1 agreement
        simpa using all
      · cases agreement
    · rintro ⟨rfl, all⟩
      simpa using all

/-- Alternatives agree on a question about values whichever view they are seen in. -/
theorem agreed_seen {question : Box → Option Bool}
    (nodeless : ∀ value : Box, question (value.seen view) = question value) (box : Box) :
    agreed question (box.seen view) = agreed question box := by
  simp only [agreed, possible_seen, List.map_map]
  rw [show question ∘ seen view = question from funext nodeless]

/-- A view shows whether a condition is decided. -/
@[simp]
theorem truthy?_seen (box : Box) : (box.seen view).truthy? = box.truthy? :=
  agreed_seen (fun value => by cases value <;> simp) box

/-- A view shows whether it is decided that a box is nullish. -/
@[simp]
theorem nullish?_seen (box : Box) : (box.seen view).nullish? = box.nullish? :=
  agreed_seen (fun value => by cases value <;> simp) box

/-- Lists whose items are changed in one way that keeps equality are equal when they were before. -/
theorem sameItems_map {change : Box → Box} {items : List Box}
    (each : ∀ item ∈ items, ∀ other, same (change item) (change other) = same item other)
    (others : List Box) :
    sameItems (items.map change) (others.map change) = sameItems items others := by
  induction items generalizing others with
  | nil => cases others <;> simp [sameItems]
  | cons item rest ih =>
    cases others with
    | nil => simp [sameItems]
    | cons other others =>
      simp only [List.map_cons, sameItems, each item (List.mem_cons_self ..)]
      rw [ih fun item found => each item (List.mem_cons_of_mem _ found)]

/-- So are maps, when their keys are renamed in one way that keeps them apart. -/
theorem sameEntries_translate {rename : String → String} {change : Box → Box}
    {entries : Entries String Box}
    (keys : ∀ key other, (rename key == rename other) = (key == other))
    (each : ∀ entry ∈ entries, ∀ other, same (change entry.2) (change other) = same entry.2 other)
    (others : Entries String Box) :
    sameEntries (entries.translate rename change) (others.translate rename change) =
      sameEntries entries others := by
  unfold Entries.translate
  induction entries generalizing others with
  | nil => cases others <;> simp [sameEntries]
  | cons entry rest ih =>
    cases others with
    | nil => simp [sameEntries]
    | cons other others =>
      simp only [List.map_cons, sameEntries, each entry (List.mem_cons_self ..), keys]
      rw [ih fun entry found => each entry (List.mem_cons_of_mem _ found)]

/-- Equality of boxes does not look at nodes. -/
@[simp]
theorem same_seen (left right : Box) : same (left.seen view) (right.seen view) = same left right := by
  induction left generalizing right with
  | literal value node => cases right <;> simp [same]
  | list items node each =>
    cases right with
    | list others _ =>
      simp only [seen_list, same]
      exact sameItems_map each others
    | _ => simp [same]
  | map entries node each =>
    cases right with
    | map others _ =>
      simp only [seen_map, same]
      exact sameEntries_translate (fun _ _ => rfl) each others
    | _ => simp [same]
  | conditional whenTrue whenFalse condition node first second =>
    cases right <;> simp [same, first, second]
  | unresolvable reason node => cases right <;> simp [same]

/-! ### Alike boxes -/

end Box

/-- Two nodes look the same. -/
def View.Agree (view : View) (left right : Reference) : Prop :=
  view.see (some left) = view.see (some right)

namespace Box

/-- Two boxes look the same. -/
def Alike (view : View) (left right : Box) : Prop := left.seen view = right.seen view

/-- Two lists of boxes look the same. -/
def AlikeItems (view : View) (left right : List Box) : Prop :=
  left.map (seen view) = right.map (seen view)

/-- Two objects have the same keys in the same order, and their values look the same. -/
def AlikeEntries (view : View) (left right : Entries String Box) : Prop :=
  Entries.mapValues (seen view) left = Entries.mapValues (seen view) right

variable {left right : Box} {node other : Reference}

/-- A box looks like itself. -/
theorem Alike.refl (box : Box) : Alike view box box := rfl

/-- Looking alike is symmetric. -/
theorem Alike.symm (alike : Alike view left right) : Alike view right left := Eq.symm alike

/-- Looking alike is transitive. -/
theorem Alike.trans {middle : Box} (first : Alike view left middle)
    (second : Alike view middle right) : Alike view left right := Eq.trans first second

/-- With every node in view only equal boxes are alike. -/
theorem alike_full : Alike View.full left right ↔ left = right := by simp [Alike]

/-- Boxes that look alike have one reason. -/
theorem Alike.reason? (alike : Alike view left right) : left.reason? = right.reason? := by
  rw [← @reason?_seen view left, alike, reason?_seen]

/-- Boxes that look alike decide a condition alike. -/
theorem Alike.truthy? (alike : Alike view left right) : left.truthy? = right.truthy? := by
  rw [← @truthy?_seen view left, alike, truthy?_seen]

/-- Boxes that look alike decide alike whether they are nullish. -/
theorem Alike.nullish? (alike : Alike view left right) : left.nullish? = right.nullish? := by
  rw [← @nullish?_seen view left, alike, nullish?_seen]

/-- Boxes that look alike have as many alternatives. -/
theorem Alike.length_possible (alike : Alike view left right) :
    left.possible.length = right.possible.length := by
  have lengths := congrArg (fun box => box.possible.length) (show left.seen view = _ from alike)
  simpa [possible_seen] using lengths

/-- Two boxes have one form: literals with one value, unresolvable boxes with one reason, or two
lists, maps or conditionals. -/
inductive Kindred : Box → Box → Prop where
  | literal (value : Primitive) (node other : Option Reference) :
    Kindred (literal value node) (literal value other)
  | list (items others : List Box) (node other : Option Reference) :
    Kindred (list items node) (list others other)
  | map (entries others : Entries String Box) (node other : Option Reference) :
    Kindred (map entries node) (map others other)
  | conditional (whenTrue whenFalse first second : Box)
    (condition node conditionNext other : Option Reference) :
    Kindred (conditional whenTrue whenFalse condition node)
      (conditional first second conditionNext other)
  | unresolvable (reason : Reason) (node other : Option Reference) :
    Kindred (unresolvable reason node) (unresolvable reason other)

/-- Alike boxes have one form. -/
theorem Alike.kindred (alike : Alike view left right) : Kindred left right := by
  cases left <;> cases right <;> simp only [Alike, seen_literal, seen_list, seen_map,
    seen_conditional, seen_unresolvable, literal.injEq, unresolvable.injEq, reduceCtorEq] at alike
  · rw [alike.1]; exact .literal ..
  · exact .list ..
  · exact .map ..
  · exact .conditional ..
  · rw [alike.1]; exact .unresolvable ..

/-- What is alike to an object has alike entries. -/
theorem Alike.entries {entries : Entries String Box} {node : Option Reference} {box : Box}
    (alike : Alike view (map entries node) box) :
    AlikeEntries view entries (box.entries?.getD []) := by
  cases alike.kindred
  simp only [Alike, seen_map, map.injEq] at alike
  exact alike.1

/-- Alike boxes have alike entries, or none. -/
theorem Alike.entries_getD (alike : Alike view left right) :
    AlikeEntries view (left.entries?.getD []) (right.entries?.getD []) := by
  cases left with
  | map => exact alike.entries
  | _ => cases alike.kindred; rfl

/-- What is alike to entries with a first one has such a first one, too. -/
theorem AlikeEntries.of_cons {key : String} {entries others : Entries String Box}
    (alike : AlikeEntries view ((key, left) :: entries) others) :
    ∃ twin rest, others = (key, twin) :: rest ∧ Alike view left twin ∧
      AlikeEntries view entries rest := by
  cases others with
  | nil => cases alike
  | cons other rest =>
    obtain ⟨name, twin⟩ := other
    simp only [AlikeEntries, Entries.mapValues, List.map_cons, List.cons.injEq,
      Prod.mk.injEq] at alike
    obtain ⟨⟨rfl, first⟩, others⟩ := alike
    exact ⟨twin, rest, rfl, first, others⟩

/-! ### Building boxes -/

/-- Literals with one value look alike at nodes that the view takes as one. -/
theorem alike_literal (nodes : view.Agree node other) (value : Primitive) :
    Alike view (literal value (some node)) (literal value (some other)) := by
  simp [Alike, show view.see _ = _ from nodes]

/-- Boxes that are not known for one reason look alike at nodes that the view takes as one. -/
theorem alike_unresolvable (nodes : view.Agree node other) (reason : Reason) :
    Alike view (unresolvable reason (some node)) (unresolvable reason (some other)) := by
  simp [Alike, show view.see _ = _ from nodes]

/-- Nothing is known about two boxes for the same reason. -/
theorem alike_of_reason? {left right : Box} {reason : Reason} (first : left.reason? = some reason)
    (second : right.reason? = some reason) : Alike .blind left right := by
  cases left with
  | unresolvable one node =>
    cases right with
    | unresolvable other twin =>
      obtain rfl : one = reason := by simpa [Box.reason?] using first
      obtain rfl : other = one := by simpa [Box.reason?] using second
      simp [Alike, View.blind]
    | _ => cases second
  | _ => cases first

/-- Lists whose items look alike do so themselves. -/
theorem alike_list {items others : List Box} (nodes : view.Agree node other)
    (alike : AlikeItems view items others) :
    Alike view (list items (some node)) (list others (some other)) := by
  simp [Alike, show view.see _ = _ from nodes, show List.map _ _ = _ from alike]

/-- Maps whose entries look alike do so themselves. -/
theorem alike_map {entries others : Entries String Box} (nodes : view.Agree node other)
    (alike : AlikeEntries view entries others) :
    Alike view (map entries (some node)) (map others (some other)) := by
  simp [Alike, show view.see _ = _ from nodes, show Entries.mapValues _ _ = _ from alike]

/-- Conditionals whose branches look alike do so themselves. -/
theorem alike_conditional {whenTrue whenFalse first second : Box} {condition : Option Reference}
    (nodes : view.Agree node other) (yes : Alike view whenTrue first)
    (no : Alike view whenFalse second) :
    Alike view (conditional whenTrue whenFalse condition (some node))
      (conditional first second condition (some other)) := by
  simp [Alike, show view.see _ = _ from nodes, show seen _ _ = _ from yes,
    show seen _ _ = _ from no]

/-- Items look alike when the first ones and the rest do. -/
theorem AlikeItems.cons {items others : List Box} (first : Alike view left right)
    (rest : AlikeItems view items others) : AlikeItems view (left :: items) (right :: others) := by
  simp [AlikeItems, show seen _ _ = _ from first, show List.map _ _ = _ from rest]

/-- Items that look alike still do so behind others that look alike. -/
theorem AlikeItems.append {items others : List Box} {first second : List Box}
    (before : AlikeItems view first second) (after : AlikeItems view items others) :
    AlikeItems view (first ++ items) (second ++ others) := by
  simp [AlikeItems, show List.map _ _ = _ from before, show List.map _ _ = _ from after]

/-- Entries look alike when the first ones have one key and look alike, and the rest do. -/
theorem AlikeEntries.cons {entries others : Entries String Box} (key : String)
    (first : Alike view left right) (rest : AlikeEntries view entries others) :
    AlikeEntries view ((key, left) :: entries) ((key, right) :: others) := by
  have rest' : Entries.mapValues _ _ = _ := rest
  simp only [AlikeEntries, Entries.mapValues, List.map_cons] at rest' ⊢
  rw [show left.seen view = _ from first, rest']

/-- Insertions of values that look alike preserve that entries do. -/
theorem AlikeEntries.insert {entries others : Entries String Box}
    (alike : AlikeEntries view entries others) (key : String) (value : Alike view left right) :
    AlikeEntries view (Entries.insert entries key left) (Entries.insert others key right) := by
  simp only [AlikeEntries, ← Entries.insert_mapValues]
  rw [show Entries.mapValues _ _ = _ from alike, show left.seen view = _ from value]

/-! ### Operations on boxes -/

/-- An operation whose results are alike stays so when it is carried into alternatives. -/
theorem seen_distribute {operation others : Box → Box} (nodes : view.Agree node other)
    (leaf : ∀ value : Box, (operation value).seen view = (others (value.seen view)).seen view)
    (box : Box) :
    (box.distribute node operation).seen view =
      ((box.seen view).distribute other others).seen view := by
  induction box with
  | conditional whenTrue whenFalse condition _ first second =>
    simp [distribute, first, second, view.see_see, show view.see _ = _ from nodes]
  | literal value node => simpa [distribute] using leaf (literal value node)
  | list items node each => simpa [distribute] using leaf (list items node)
  | map entries node each => simpa [distribute] using leaf (map entries node)
  | unresolvable reason node => simpa [distribute] using leaf (unresolvable reason node)

/-- What is read from a value is seen as if it were read from what is seen of the value. -/
theorem seen_readLeaf (nodes : view.Agree node other) (key : Primitive) (value : Box) :
    (readLeaf key node value).seen view = (readLeaf key other (value.seen view)).seen view := by
  have shown : view.see (some node) = view.see (some other) := nodes
  cases value with
  | literal value origin =>
    cases value with
    | string value =>
      simp only [seen_literal, readLeaf]
      split
      · simp [shown]
      · split <;> simp [text, shown]
    | _ => simp [readLeaf, shown]
  | list items origin =>
    simp only [seen_list, readLeaf, List.length_map, List.getElem?_map]
    split
    · simp [shown]
    · cases key.position? with
      | none => simp [shown]
      | some position => cases found : items[position]? <;> simp [found, shown]
  | map entries origin =>
    simp only [seen_map, readLeaf, Entries.get?_mapValues]
    cases Entries.get? entries key.toText <;> simp [shown]
  | conditional => simp [readLeaf, view.see_see]
  | unresolvable => simp [readLeaf, view.see_see]

/-- The members of alike boxes are alike. -/
theorem Alike.read (alike : Alike view left right) (nodes : view.Agree node other)
    (key : Primitive) : Alike view (left.read key node) (right.read key other) := by
  have same : view.Agree other other := rfl
  simp only [Alike, Box.read]
  rw [seen_distribute nodes (seen_readLeaf nodes key) left,
    seen_distribute same (seen_readLeaf same key) right, show left.seen view = _ from alike]

/-- A result is seen alike at nodes that the view takes as one. -/
theorem seen_ofResult (nodes : view.Agree node other) (value : Option Primitive) :
    (ofResult node value).seen view = (ofResult other value).seen view := by
  cases value <;> simp [ofResult, show view.see _ = _ from nodes]

/-- The result for a value is seen as if it were computed from what is seen of the value. -/
theorem seen_unaryLeaf (operator : Syntax.Unary) (nodes : view.Agree node other) (value : Box) :
    (unaryLeaf operator node value).seen view =
      (unaryLeaf operator other (value.seen view)).seen view := by
  have shown : view.see (some node) = view.see (some other) := nodes
  cases value with
  | literal value => simpa [unaryLeaf] using seen_ofResult nodes _
  | list | map => cases operator <;> simp [unaryLeaf, shown]
  | conditional | unresolvable => simp [unaryLeaf, view.see_see]

/-- An operator on one operand gives alike boxes for alike operands. -/
theorem Alike.unary (alike : Alike view left right) (nodes : view.Agree node other)
    (operator : Syntax.Unary) : Alike view (left.unary operator node) (right.unary operator other) := by
  have same : view.Agree other other := rfl
  simp only [Alike, Box.unary]
  rw [seen_distribute nodes (seen_unaryLeaf operator nodes) left,
    seen_distribute same (seen_unaryLeaf operator same) right, show left.seen view = _ from alike]

/-- The result for a pair is seen as if it were computed from what is seen of the pair. -/
theorem seen_binaryLeaf (operator : Syntax.Binary) (nodes : view.Agree node other) (a b : Box) :
    (binaryLeaf operator node a b).seen view =
      (binaryLeaf operator other (a.seen view) (b.seen view)).seen view := by
  have shown : view.see (some node) = view.see (some other) := nodes
  have result := seen_ofResult nodes
  cases a <;> cases b <;> simp [binaryLeaf, view.see_see, shown, result]

/-- An unresolvable operand is the result; otherwise every alternative of the left operand that is
known meets every alternative of the right one. -/
theorem combine_eq (operator : Syntax.Binary) (node : Reference) (a b : Box) :
    combine operator node a b =
      if a.isUnresolvable then a
      else if b.isUnresolvable then b
      else a.distribute node fun a =>
        if a.isUnresolvable then a
        else b.distribute node fun b => binaryLeaf operator node a b := by
  cases a with
  | unresolvable => rw [combine]; simp [isUnresolvable, Box.reason?]
  | _ =>
    cases b with
    | unresolvable => simp [combine, isUnresolvable, Box.reason?]
    | _ => simp only [combine, isUnresolvable, Box.reason?, Option.isSome_none, Bool.false_eq_true,
        if_false]

/-- Carrying an operator into the alternatives of both operands does not look at nodes. -/
theorem seen_combine (operator : Syntax.Binary) (nodes : view.Agree node other) (a b : Box) :
    (combine operator node a b).seen view =
      (combine operator other (a.seen view) (b.seen view)).seen view := by
  simp only [combine_eq, isUnresolvable_seen]
  split
  · simp
  · split
    · simp
    · refine seen_distribute nodes (fun value => ?_) a
      rw [isUnresolvable_seen]
      split
      · simp
      · exact seen_distribute nodes (seen_binaryLeaf operator nodes value) b

/-- An operator on two operands gives alike boxes for alike operands. -/
theorem Alike.binary {first second : Box} (alike : Alike view left right)
    (alikeNext : Alike view first second) (nodes : view.Agree node other)
    (operator : Syntax.Binary) :
    Alike view (Box.binary operator node left first) (Box.binary operator other right second) := by
  have same : view.Agree other other := rfl
  simp only [Box.binary, alike.length_possible, alikeNext.length_possible]
  split
  · exact alike_unresolvable nodes .unsupported
  · simp only [Alike]
    rw [seen_combine operator nodes left, seen_combine operator same right,
      show left.seen view = _ from alike, show first.seen view = _ from alikeNext]

/-- The characters of a text are seen at the node as it is seen. -/
theorem seen_characters (value : String) (origin : Option Reference) :
    (characters value origin).map (seen view) = characters value (view.see origin) := by
  simp [characters, text]

/-- Items under their positions are seen item by item. -/
theorem seen_positional (items : List Box) :
    Entries.mapValues (seen view) (positional items) = positional (items.map (seen view)) := by
  simp [positional, Entries.mapValues, List.zipIdx_map, Function.comp_def]

/-- Alike boxes contribute alike items. -/
theorem Alike.spreadItems (alike : Alike view left right) (node : Reference) :
    AlikeItems view (left.spreadItems node) (right.spreadItems node) := by
  have shown : ∀ box : Box, (box.spreadItems node).map (seen view) =
      ((box.seen view).spreadItems node).map (seen view) := by
    intro box
    cases box with
    | literal value origin =>
      cases value <;> simp [Box.spreadItems, seen_characters, view.see_see]
    | _ => simp [Box.spreadItems, view.see_see]
  simp only [AlikeItems]
  rw [shown left, shown right, show left.seen view = _ from alike]

/-- One of two outcomes is alike to one of two alike outcomes. -/
theorem Alike.either {whenTrue whenFalse first second : Box} {condition conditionNext : Option Reference}
    (conditions : view.see condition = view.see conditionNext) (yes : Alike view whenTrue first)
    (no : Alike view whenFalse second) (node : Reference) :
    Alike view (either condition node whenTrue whenFalse)
      (either conditionNext node first second) := by
  have equality : (whenTrue == whenFalse) = (first == second) := by
    change same whenTrue whenFalse = same first second
    rw [← @same_seen view whenTrue, yes, no, same_seen]
  simp only [Box.either, equality]
  split
  · exact yes
  · simp [Alike, conditions, show seen _ _ = _ from yes, show seen _ _ = _ from no]

section Entries

variable {entries others : Entries String Box}

/-- Entries that look alike have the same keys. -/
theorem AlikeEntries.keys (alike : AlikeEntries view entries others) :
    Entries.keys entries = Entries.keys others := by
  rw [← Entries.keys_mapValues (seen view) entries, alike, Entries.keys_mapValues]

/-- Entries that look alike have values under a key that look alike. -/
theorem AlikeEntries.get? (alike : AlikeEntries view entries others) (key : String) :
    (Entries.get? entries key).map (seen view) = (Entries.get? others key).map (seen view) := by
  rw [← Entries.get?_mapValues, alike, Entries.get?_mapValues]

/-- Entries that look alike contain the same keys. -/
theorem AlikeEntries.contains (alike : AlikeEntries view entries others) (key : String) :
    Entries.contains entries key = Entries.contains others key := by
  rw [← Entries.contains_mapValues (seen view) entries, alike, Entries.contains_mapValues]

/-- Keeping the entries of some keys preserves looking alike. -/
theorem AlikeEntries.keep (alike : AlikeEntries view entries others) (passes : String → Bool) :
    AlikeEntries view (Entries.keep passes entries) (Entries.keep passes others) := by
  have kept := congrArg (Entries.keep passes) alike
  rwa [Entries.keep_mapValues, Entries.keep_mapValues] at kept

/-- Insertions of pairs that look alike preserve that entries do. -/
theorem AlikeEntries.insertAll {pairs pairsNext : Entries String Box}
    (alike : AlikeEntries view entries others) (added : AlikeEntries view pairs pairsNext) :
    AlikeEntries view (Entries.insertAll entries pairs) (Entries.insertAll others pairsNext) := by
  simp only [AlikeEntries, ← Entries.insertAll_mapValues]
  rw [show Entries.mapValues _ _ = _ from alike, show Entries.mapValues _ pairs = _ from added]

/-- Under every key, present or not, alike objects have what is alike. -/
theorem AlikeEntries.getD_missing (alike : AlikeEntries view entries others) (key : String) :
    Alike view ((Entries.get? entries key).getD missing)
      ((Entries.get? others key).getD missing) := by
  have found := alike.get? key
  cases first : Entries.get? entries key <;> cases second : Entries.get? others key <;>
    simp_all [Alike]

/-- What looks like a map is a map with the same keys and alike boxes under them. -/
theorem Alike.exists_map {node : Option Reference} {box : Box}
    (alike : Alike view (.map entries node) box) :
    ∃ others other, box = .map others other ∧ Entries.keys others = Entries.keys entries ∧
      AlikeEntries view entries others := by
  have shown := alike.entries
  cases alike.kindred
  exact ⟨_, _, rfl, shown.keys.symm, shown⟩

/-- What two objects have in common or differ in does not depend on nodes. -/
theorem AlikeEntries.merge {otherwise otherwiseNext : Entries String Box}
    {condition conditionNext : Option Reference}
    (conditions : view.see condition = view.see conditionNext)
    (yes : AlikeEntries view entries others) (no : AlikeEntries view otherwise otherwiseNext)
    (node : Reference) :
    AlikeEntries view (merge condition node entries otherwise)
      (merge conditionNext node others otherwiseNext) := by
  simp only [AlikeEntries, Box.merge, Entries.mapValues, List.map_map, yes.keys, no.keys,
    yes.contains]
  refine List.map_congr_left fun key _ => ?_
  exact Prod.ext rfl ((yes.getD_missing key).either conditions (no.getD_missing key) node)

end Entries

/-- Alike boxes contribute alike entries to alike objects. -/
theorem Alike.spread {entries others : Entries String Box} (alike : Alike view left right)
    (fallback : String) (node : Reference) (before : AlikeEntries view entries others) :
    AlikeEntries view (left.spread fallback node entries)
      (right.spread fallback node others) := by
  -- Both sides are compared with what the boxes contribute as they are seen.
  have shown : ∀ {entries others : Entries String Box}, AlikeEntries view entries others →
      ∀ box : Box, AlikeEntries view (box.spread fallback node entries)
        ((box.seen view).spread fallback node others) := by
    intro entries others before box
    induction box with
    | literal value origin =>
      cases value with
      | string value =>
        simp only [seen_literal, Box.spread, ← seen_characters]
        refine before.insertAll ?_
        simp [AlikeEntries, seen_positional, Function.comp_def]
      | _ => simpa [Box.spread] using before
    | list items origin _ =>
      simp only [seen_list, Box.spread]
      refine before.insertAll ?_
      simp [AlikeEntries, seen_positional, Function.comp_def]
    | map contributed origin _ =>
      simp only [seen_map, Box.spread]
      refine before.insertAll ?_
      simp [AlikeEntries, Entries.mapValues, Function.comp_def]
    | conditional whenTrue whenFalse condition origin first second =>
      simp only [seen_conditional, Box.spread]
      exact first.merge (view.see_see condition).symm second node
    | unresolvable reason origin =>
      simp only [seen_unresolvable, Box.spread]
      exact before.insert fallback (by simp [Alike, view.see_see])
  have first := shown (show AlikeEntries view entries entries from rfl) left
  have second := shown before.symm right
  rw [show left.seen view = _ from alike] at first
  exact first.trans second.symm

end Box
end Glean
