import Glean.Proofs.Box.Spreading

/-!
# Other keys

A renaming of keys is carried into a box wherever a map stands in it (`Box.rekey`). An injective
renaming commutes with everything that is done to boxes, as long as it leaves the keys alone that
the operation brings along: those that are read, and the positions of items.
-/

namespace Glean

namespace Box

variable (rename : String → String)

mutual

/-- The box with every key renamed. -/
def rekey : Box → Box
  | literal value node => literal value node
  | list items node => list (rekeyItems items) node
  | map entries node => map (rekeyEntries entries) node
  | conditional whenTrue whenFalse condition node =>
    conditional whenTrue.rekey whenFalse.rekey condition node
  | unresolvable reason node => unresolvable reason node

/-- The items of a list with every key renamed. -/
def rekeyItems : List Box → List Box
  | [] => []
  | item :: rest => item.rekey :: rekeyItems rest

/-- The entries of a map with every key renamed. -/
def rekeyEntries : Entries String Box → Entries String Box
  | [] => []
  | (key, value) :: rest => (rename key, value.rekey) :: rekeyEntries rest

end

variable {rename}

/-- Items are rekeyed one by one. -/
theorem rekeyItems_eq (items : List Box) : rekeyItems rename items = items.map (rekey rename) := by
  induction items with
  | nil => rfl
  | cons item rest ih => exact congrArg (item.rekey rename :: ·) ih

/-- Entries are rekeyed one by one, each under its renamed key. -/
theorem rekeyEntries_eq (entries : Entries String Box) :
    rekeyEntries rename entries = Entries.translate rename (rekey rename) entries := by
  induction entries with
  | nil => rfl
  | cons entry rest ih => exact congrArg ((rename entry.1, entry.2.rekey rename) :: ·) ih

/-- Rekeying leaves a literal as it is. -/
@[simp]
theorem rekey_literal (value : Primitive) (node : Option Reference) :
    (literal value node).rekey rename = literal value node := rfl

/-- A list is rekeyed item by item. -/
@[simp]
theorem rekey_list (items : List Box) (node : Option Reference) :
    (list items node).rekey rename = list (items.map (rekey rename)) node :=
  congrArg (list · node) (rekeyItems_eq items)

/-- A map is rekeyed entry by entry. -/
@[simp]
theorem rekey_map (entries : Entries String Box) (node : Option Reference) :
    (map entries node).rekey rename = map (Entries.translate rename (rekey rename) entries) node :=
  congrArg (map · node) (rekeyEntries_eq entries)

/-- A conditional is rekeyed branch by branch. -/
@[simp]
theorem rekey_conditional (whenTrue whenFalse : Box) (condition node : Option Reference) :
    (conditional whenTrue whenFalse condition node).rekey rename =
      conditional (whenTrue.rekey rename) (whenFalse.rekey rename) condition node := rfl

/-- Rekeying leaves what is not known as it is. -/
@[simp]
theorem rekey_unresolvable (reason : Reason) (node : Option Reference) :
    (unresolvable reason node).rekey rename = unresolvable reason node := rfl

/-- A box whose keys are all kept is kept. -/
theorem rekey_id (box : Box) : box.rekey id = box := by
  induction box with
  | list items node each =>
    rw [rekey_list, List.map_congr_left each, List.map_id']
  | map entries node each =>
    have kept : ∀ entry ∈ entries, (id entry.1, entry.2.rekey id) = entry :=
      fun entry listed => Prod.ext rfl (each entry listed)
    rw [rekey_map, Entries.translate, List.map_congr_left kept, List.map_id']
  | conditional whenTrue whenFalse condition node first second =>
    rw [rekey_conditional, first, second]
  | _ => simp

/-! ### Questions about a box do not look at keys -/

/-- Rekeying keeps the reason. -/
@[simp]
theorem reason?_rekey (box : Box) : (box.rekey rename).reason? = box.reason? := by
  cases box <;> simp [reason?]

/-- Rekeying keeps whether a box is known. -/
@[simp]
theorem isUnresolvable_rekey (box : Box) :
    (box.rekey rename).isUnresolvable = box.isUnresolvable := by
  simp [isUnresolvable]

/-- The alternatives of a rekeyed box are its alternatives, rekeyed. -/
theorem possible_rekey (box : Box) :
    (box.rekey rename).possible = box.possible.map (rekey rename) := by
  induction box with
  | conditional whenTrue whenFalse condition node first second => simp [possible, first, second]
  | _ => simp [possible]

/-- Alternatives agree on a question that keys do not matter to before and after they are rekeyed.
-/
theorem agreed_rekey {question : Box → Option Bool}
    (keyless : ∀ value : Box, question (value.rekey rename) = question value) (box : Box) :
    agreed question (box.rekey rename) = agreed question box := by
  simp only [agreed, possible_rekey, List.map_map]
  rw [show question ∘ rekey rename = question from funext keyless]

/-- Rekeying keeps whether a condition is decided. -/
@[simp]
theorem truthy?_rekey (box : Box) : (box.rekey rename).truthy? = box.truthy? :=
  agreed_rekey (fun value => by cases value <;> simp) box

/-- Rekeying keeps whether it is decided that a box is nullish. -/
@[simp]
theorem nullish?_rekey (box : Box) : (box.rekey rename).nullish? = box.nullish? :=
  agreed_rekey (fun value => by cases value <;> simp) box

/-- Boxes whose keys are renamed in one way are equal when they were before. -/
theorem same_rekey (injective : Function.Injective rename) (left right : Box) :
    same (left.rekey rename) (right.rekey rename) = same left right := by
  induction left generalizing right with
  | literal value node => cases right <;> simp [same]
  | list items node each =>
    cases right with
    | list others _ =>
      simp only [rekey_list, same]
      exact sameItems_map each others
    | _ => simp [same]
  | map entries node each =>
    cases right with
    | map others _ =>
      have keys : ∀ key other, (rename key == rename other) = (key == other) := by
        intro key other
        rw [Bool.eq_iff_iff, beq_iff_eq, beq_iff_eq]
        exact injective.eq_iff
      simp only [rekey_map, same]
      exact sameEntries_translate keys each others
    | _ => simp [same]
  | conditional whenTrue whenFalse condition node first second =>
    cases right <;> simp [same, first, second]
  | unresolvable reason node => cases right <;> simp [same]

/-! ### Operations on boxes -/

/-- An operation that commutes with the renaming does so when it is carried into alternatives. -/
theorem rekey_distribute {operation others : Box → Box} {node : Reference}
    (leaf : ∀ value : Box, (operation value).rekey rename = others (value.rekey rename)) (box : Box) :
    (box.distribute node operation).rekey rename = (box.rekey rename).distribute node others := by
  induction box with
  | conditional whenTrue whenFalse condition _ first second => simp [distribute, first, second]
  | literal value origin => simpa [distribute] using leaf (literal value origin)
  | list items origin _ => simpa [distribute] using leaf (list items origin)
  | map entries origin _ => simpa [distribute] using leaf (map entries origin)
  | unresolvable reason origin => simpa [distribute] using leaf (unresolvable reason origin)

/-- What is read from a value under a key that stays is read from the rekeyed value, rekeyed. -/
theorem rekey_readLeaf (injective : Function.Injective rename) {key : Primitive}
    (fixed : rename key.toText = key.toText) (node : Reference) (value : Box) :
    (readLeaf key node value).rekey rename = readLeaf key node (value.rekey rename) := by
  cases value with
  | literal value origin =>
    cases value with
    | string value =>
      rw [rekey_literal]
      simp only [readLeaf]
      split
      · simp
      · split <;> simp [text]
    | _ => simp [readLeaf]
  | list items origin =>
    simp only [rekey_list, readLeaf, List.length_map, List.getElem?_map]
    split
    · simp
    · cases key.position? with
      | none => simp
      | some position => cases found : items[position]? <;> simp [found]
  | map entries origin =>
    have found : Entries.get? (Entries.translate rename (rekey rename) entries) (rename key.toText) =
        (Entries.get? entries key.toText).map (rekey rename) :=
      Entries.get?_translate injective entries key.toText
    rw [fixed] at found
    simp only [rekey_map, readLeaf, found]
    cases Entries.get? entries key.toText <;> simp
  | conditional => simp [readLeaf]
  | unresolvable => simp [readLeaf]

/-- A key that is not renamed reads the same. -/
theorem rekey_read (injective : Function.Injective rename) {key : Primitive}
    (fixed : rename key.toText = key.toText) (node : Reference) (box : Box) :
    (box.read key node).rekey rename = (box.rekey rename).read key node :=
  rekey_distribute (rekey_readLeaf injective fixed node) box

/-- Rekeying leaves a result as it is. -/
theorem rekey_ofResult (node : Reference) (value : Option Primitive) :
    (ofResult node value).rekey rename = ofResult node value := by
  cases value <;> simp [ofResult]

/-- An operator with one operand is applied before or after the operand is rekeyed. -/
theorem rekey_unary (operator : Syntax.Unary) (node : Reference) (box : Box) :
    (box.unary operator node).rekey rename = (box.rekey rename).unary operator node := by
  refine rekey_distribute (fun value => ?_) box
  cases value with
  | literal value => simpa [unaryLeaf] using rekey_ofResult node _
  | list | map => cases operator <;> simp [unaryLeaf]
  | conditional | unresolvable => simp [unaryLeaf]

/-- An operator with two operands is applied before or after the operands are rekeyed. -/
theorem rekey_binary (operator : Syntax.Binary) (node : Reference) (left right : Box) :
    (binary operator node left right).rekey rename =
      binary operator node (left.rekey rename) (right.rekey rename) := by
  have leaf : ∀ a b : Box, (binaryLeaf operator node a b).rekey rename =
      binaryLeaf operator node (a.rekey rename) (b.rekey rename) := by
    intro a b
    have result : ∀ value, (ofResult node value).rekey rename = ofResult node value :=
      rekey_ofResult node
    cases a <;> cases b <;> simp [binaryLeaf, result]
  simp only [binary, possible_rekey, List.length_map]
  split
  · simp
  · simp only [combine_eq, isUnresolvable_rekey]
    split
    · rfl
    · split
      · rfl
      · refine rekey_distribute (fun value => ?_) left
        rw [isUnresolvable_rekey]
        split
        · rfl
        · exact rekey_distribute (leaf value) right

/-- The items of a spread are taken before or after the rekeying. -/
theorem rekey_spreadItems (node : Reference) (box : Box) :
    (box.spreadItems node).map (rekey rename) = (box.rekey rename).spreadItems node := by
  cases box with
  | literal value origin => cases value <;> simp [spreadItems, characters, text]
  | _ => simp [spreadItems]

section Maps

variable (injective : Function.Injective rename)

include injective

/-- A choice is made before or after its branches are rekeyed. -/
theorem rekey_either (condition : Option Reference) (node : Reference) (whenTrue whenFalse : Box) :
    (either condition node whenTrue whenFalse).rekey rename =
      either condition node (whenTrue.rekey rename) (whenFalse.rekey rename) := by
  have equality : (whenTrue.rekey rename == whenFalse.rekey rename) = (whenTrue == whenFalse) :=
    same_rekey injective whenTrue whenFalse
  simp only [either, equality]
  split <;> simp

/-- Entries of two branches are merged before or after they are rekeyed. -/
theorem translate_merge (condition : Option Reference) (node : Reference)
    (entries others : Entries String Box) :
    Entries.translate rename (rekey rename) (merge condition node entries others) =
      merge condition node (Entries.translate rename (rekey rename) entries)
        (Entries.translate rename (rekey rename) others) := by
  have value : ∀ (entries : Entries String Box) (key : String),
      ((Entries.get? entries key).getD missing).rekey rename =
        (Entries.get? (Entries.translate rename (rekey rename) entries) (rename key)).getD missing := by
    intro entries key
    rw [Entries.get?_translate injective]
    cases Entries.get? entries key <;> simp [missing]
  simp only [merge, Entries.keys_translate, List.filter_map, ← List.map_append,
    Function.comp_def, Entries.contains_translate injective]
  rw [Entries.translate, List.map_map, List.map_map]
  refine List.map_congr_left fun key _ => Prod.ext rfl ?_
  simp only [Function.comp_apply]
  rw [rekey_either injective, value, value]

/-- The keys of a value that is spread are renamed with those before it, and with the key that
stands in for a value of which nothing is known. -/
theorem translate_spread (numerals : ∀ position : Nat, rename (toString position) = toString position)
    (fallback : String) (node : Reference) (entries : Entries String Box) (box : Box) :
    Entries.translate rename (rekey rename) (box.spread fallback node entries) =
      (box.rekey rename).spread (rename fallback) node
        (Entries.translate rename (rekey rename) entries) := by
  have positions : ∀ items : List Box,
      Entries.translate rename (rekey rename) (positional items) =
        positional (items.map (rekey rename)) := by
    intro items
    rw [Entries.translate, positional, positional, List.zipIdx_map, List.map_map, List.map_map]
    exact List.map_congr_left fun item _ => Prod.ext (numerals item.2) rfl
  have shown : ∀ (value : String) (origin : Option Reference),
      (characters value origin).map (rekey rename) = characters value origin := by
    intro value origin
    simp [characters, text]
  induction box with
  | literal value origin =>
    cases value with
    | string value =>
      simp only [rekey_literal, spread]
      rw [← Entries.insertAll_translate injective, positions, shown]
    | _ => simp [spread]
  | list items origin _ =>
    simp only [rekey_list, spread]
    rw [← Entries.insertAll_translate injective, positions]
  | map contributed origin _ =>
    simp only [rekey_map, spread]
    rw [← Entries.insertAll_translate injective]
  | conditional whenTrue whenFalse condition origin first second =>
    simp only [rekey_conditional, spread]
    rw [translate_merge injective, first, second]
  | unresolvable reason origin =>
    simp only [rekey_unresolvable, spread]
    rw [← Entries.insert_translate injective, rekey_unresolvable]

end Maps

/-! ### Boxes that are equal up to keys -/

/-- The boxes say the same when the keys of the first are renamed. -/
def Renames (rename : String → String) (left right : Box) : Prop :=
  Alike .blind (left.rekey rename) right

/-- The items say the same when the keys of the first are renamed. -/
def RenamesItems (rename : String → String) (left right : List Box) : Prop :=
  AlikeItems .blind (left.map (rekey rename)) right

/-- The entries say the same when the keys of the first are renamed. -/
def RenamesEntries (rename : String → String) (left right : Entries String Box) : Prop :=
  AlikeEntries .blind (Entries.translate rename (rekey rename) left) right

section Renames

variable {left right first second : Box} {entries others : Entries String Box}

/-- The blind view sees no node. -/
theorem see_blind (node : Option Reference) : View.blind.see node = none := rfl

/-- A renaming leaves a literal as it is, wherever it comes from. -/
theorem Renames.literal (value : Primitive) (node other : Option Reference) :
    Renames rename (literal value node) (literal value other) := by
  simp [Renames, Alike, View.blind]

/-- A renaming leaves what is not known as it is, wherever it comes from. -/
theorem Renames.unresolvable (reason : Reason) (node other : Option Reference) :
    Renames rename (unresolvable reason node) (unresolvable reason other) := by
  simp [Renames, Alike, View.blind]

/-- A list is renamed when its items are. -/
theorem Renames.list {items others : List Box} (each : RenamesItems rename items others)
    (node other : Option Reference) : Renames rename (list items node) (list others other) := by
  have same : (items.map (rekey rename)).map (seen .blind) = others.map (seen .blind) := each
  rw [Renames, rekey_list, Alike, seen_list, seen_list, same, see_blind, see_blind]

/-- A map is renamed when its entries are. -/
theorem Renames.map (each : RenamesEntries rename entries others) (node other : Option Reference) :
    Renames rename (map entries node) (map others other) := by
  have same : Entries.mapValues (seen .blind) (Entries.translate rename (rekey rename) entries) =
      Entries.mapValues (seen .blind) others := each
  rw [Renames, rekey_map, Alike, seen_map, seen_map, same, see_blind, see_blind]

/-- A conditional is renamed when its branches are. -/
theorem Renames.conditional (yes : Renames rename left first) (no : Renames rename right second)
    (condition node conditionNext other : Option Reference) :
    Renames rename (conditional left right condition node)
      (conditional first second conditionNext other) := by
  have first : (left.rekey rename).seen .blind = first.seen .blind := yes
  have second : (right.rekey rename).seen .blind = second.seen .blind := no
  rw [Renames, rekey_conditional, Alike, seen_conditional, seen_conditional, first, second]
  simp only [see_blind]

/-- Boxes that are equal up to keys have one form. -/
theorem Renames.kindred (renames : Renames rename left right) : Kindred left right := by
  have kindred := Alike.kindred renames
  cases left <;> simp only [rekey_literal, rekey_list, rekey_map, rekey_conditional,
    rekey_unresolvable] at kindred <;> cases kindred <;> constructor

/-- Boxes that a renaming relates have one reason. -/
theorem Renames.reason? (renames : Renames rename left right) : left.reason? = right.reason? := by
  rw [← reason?_rekey left]
  exact Alike.reason? renames

/-- Boxes that a renaming relates decide a condition alike. -/
theorem Renames.truthy? (renames : Renames rename left right) : left.truthy? = right.truthy? := by
  rw [← truthy?_rekey left]
  exact Alike.truthy? renames

/-- Boxes that a renaming relates decide alike whether they are nullish. -/
theorem Renames.nullish? (renames : Renames rename left right) : left.nullish? = right.nullish? := by
  rw [← nullish?_rekey left]
  exact Alike.nullish? renames

/-- No node is seen, so all of them look the same. -/
theorem blind_agree (node other : Reference) : View.blind.Agree node other := rfl

/-- Operators with one operand preserve that boxes are related by a renaming. -/
theorem Renames.unary (renames : Renames rename left right) (operator : Syntax.Unary)
    (node other : Reference) :
    Renames rename (left.unary operator node) (right.unary operator other) := by
  rw [Renames, rekey_unary]
  exact Alike.unary renames (blind_agree node other) operator

/-- Operators with two operands preserve that boxes are related by a renaming. -/
theorem Renames.binary (renames : Renames rename left right) (next : Renames rename first second)
    (operator : Syntax.Binary) (node other : Reference) :
    Renames rename (Box.binary operator node left first) (Box.binary operator other right second) := by
  rw [Renames, rekey_binary]
  exact Alike.binary renames next (blind_agree node other) operator

/-- Spreads of related boxes have related items. -/
theorem Renames.spreadItems (renames : Renames rename left right) (node other : Reference) :
    RenamesItems rename (left.spreadItems node) (right.spreadItems other) := by
  have places : ∀ box : Box, AlikeItems .blind (box.spreadItems node) (box.spreadItems other) := by
    intro box
    cases box with
    | map | conditional => simp [AlikeItems, Box.spreadItems, View.blind]
    | literal value => cases value <;> rfl
    | _ => rfl
  rw [RenamesItems, rekey_spreadItems]
  exact (places _).trans (Alike.spreadItems renames other)

/-- Items are related when the first ones and the rest are. -/
theorem RenamesItems.cons {items others : List Box} (renames : Renames rename left right)
    (rest : RenamesItems rename items others) :
    RenamesItems rename (left :: items) (right :: others) :=
  AlikeItems.cons renames rest

/-- Related items are still so behind others that are related. -/
theorem RenamesItems.append {items others before after : List Box}
    (renames : RenamesItems rename before after) (rest : RenamesItems rename items others) :
    RenamesItems rename (before ++ items) (after ++ others) := by
  rw [RenamesItems, List.map_append]
  exact AlikeItems.append renames rest

/-- Entries are related when the first ones have a key that stays and are related, and the rest are.
-/
theorem RenamesEntries.cons {key : String} (fixed : rename key = key)
    (renames : Renames rename left right) (rest : RenamesEntries rename entries others) :
    RenamesEntries rename ((key, left) :: entries) ((key, right) :: others) := by
  rw [RenamesEntries, Entries.translate, List.map_cons, fixed]
  exact AlikeEntries.cons key renames rest

variable (injective : Function.Injective rename)

include injective

/-- Under a key that stays, related boxes have related members. -/
theorem Renames.read (renames : Renames rename left right) {key : Primitive}
    (fixed : rename key.toText = key.toText) (node other : Reference) :
    Renames rename (left.read key node) (right.read key other) := by
  rw [Renames, rekey_read injective fixed]
  exact Alike.read renames (blind_agree node other) key

/-- Insertions of related values, under a key and its renamed key, preserve that entries are
related. -/
theorem RenamesEntries.insert (each : RenamesEntries rename entries others) (key : String)
    (renames : Renames rename left right) :
    RenamesEntries rename (Entries.insert entries key left)
      (Entries.insert others (rename key) right) := by
  rw [RenamesEntries, ← Entries.insert_translate injective]
  exact AlikeEntries.insert each (rename key) renames

/-- Spreads of related boxes preserve that entries are related, if the renaming keeps positions. -/
theorem Renames.spread (renames : Renames rename left right)
    (numerals : ∀ position : Nat, rename (toString position) = toString position)
    (each : RenamesEntries rename entries others) (fallback : String) (node other : Reference) :
    RenamesEntries rename (left.spread fallback node entries)
      (right.spread (rename fallback) other others) := by
  rw [RenamesEntries, translate_spread injective numerals]
  exact (Alike.spread renames (rename fallback) node each).trans (spread_at ..)

end Renames

end Box

end Glean
