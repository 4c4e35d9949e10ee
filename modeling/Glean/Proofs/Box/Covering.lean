import Glean.Proofs.Box.Equality

/-!
# Boxes that cover others

A box covers another one when the other one says the same or more of the same value (`Box.Covers`).
An unresolvable box covers everything. Whether a conditional may cover what one of its branches covers
is a parameter, `branching`: where conditions are left out, no conditional covers anything, and a box
without unresolvable parts covers only boxes that are alike.

Reading, the operators and, for values that are neither unresolvable nor conditional, spreading take
covering boxes to covering boxes.
-/

namespace Glean.Box

/-- The first box says nothing that the second one contradicts: each part of it is unresolvable, the
same as in the second one, or a conditional one branch of which covers it. -/
inductive Covers (branching : Bool) : Box → Box → Prop where
  | unknown (reason : Reason) (node : Option Reference) (other : Box) :
    Covers branching (unresolvable reason node) other
  | literal (value : Primitive) (node other : Option Reference) :
    Covers branching (literal value node) (literal value other)
  | list {items others : List Box} {node other : Option Reference}
    (lengths : items.length = others.length)
    (each : ∀ pair ∈ items.zip others, Covers branching pair.1 pair.2) :
    Covers branching (list items node) (list others other)
  | map {entries others : Entries String Box} {node other : Option Reference}
    (keys : Entries.keys entries = Entries.keys others)
    (each : ∀ pair ∈ entries.zip others, Covers branching pair.1.2 pair.2.2) :
    Covers branching (map entries node) (map others other)
  | left {whenTrue whenFalse other : Box} {condition node : Option Reference}
    (branches : branching = true) (covers : Covers branching whenTrue other) :
    Covers branching (conditional whenTrue whenFalse condition node) other
  | right {whenTrue whenFalse other : Box} {condition node : Option Reference}
    (branches : branching = true) (covers : Covers branching whenFalse other) :
    Covers branching (conditional whenTrue whenFalse condition node) other
  | both {whenTrue whenFalse first second : Box}
    {condition node conditionNext other : Option Reference} (branches : branching = true)
    (yes : Covers branching whenTrue first) (no : Covers branching whenFalse second) :
    Covers branching (conditional whenTrue whenFalse condition node)
      (conditional first second conditionNext other)

/-- Whether the box stands for one value: it is neither unknown nor one of several. -/
def isDefinite : Box → Bool
  | conditional .. | unresolvable .. => false
  | _ => true

/-- Whether the value is undefined. -/
def isUndefined : Box → Bool
  | literal .undefined _ => true
  | _ => false

/-- The items of one list cover those of another one, place by place. -/
abbrev CoversItems (branching : Bool) : List Box → List Box → Prop :=
  List.Forall₂ (Covers branching)

/-- The entries of two objects have the same keys in the same order, and the values of the first
cover those of the second. -/
abbrev CoversEntries (branching : Bool) : Entries String Box → Entries String Box → Prop :=
  List.Forall₂ fun entry other => entry.1 = other.1 ∧ Covers branching entry.2 other.2

variable {branching : Bool} {box other value : Box} {node place : Reference}

/-! ### Lists and objects -/

/-- A list covers a list whose items it covers. -/
theorem covers_list {items others : List Box} (covers : CoversItems branching items others)
    (node other : Option Reference) : Covers branching (list items node) (list others other) :=
  .list covers.length_eq fun _ found => (List.forall₂_iff_zip.1 covers).2 found

/-- Lists of one length cover each other when they do so place by place. -/
theorem coversItems_of_zip {items others : List Box} (lengths : items.length = others.length)
    (each : ∀ pair ∈ items.zip others, Covers branching pair.1 pair.2) :
    CoversItems branching items others :=
  List.forall₂_iff_zip.2 ⟨lengths, fun found => each _ found⟩

/-- A map that covers another has its keys. -/
theorem CoversEntries.keys {entries others : Entries String Box}
    (covers : CoversEntries branching entries others) :
    Entries.keys entries = Entries.keys others := by
  induction covers with
  | nil => rfl
  | cons first _ ih => simpa [Entries.keys, first.1] using ih

/-- A map covers a map whose entries it covers. -/
theorem covers_map {entries others : Entries String Box}
    (covers : CoversEntries branching entries others) (node other : Option Reference) :
    Covers branching (map entries node) (map others other) :=
  .map covers.keys fun _ found => ((List.forall₂_iff_zip.1 covers).2 found).2

/-- Maps with the same keys are related when their values are, place by place. -/
theorem forall₂_of_keys {related : Box → Box → Prop} {entries others : Entries String Box}
    (keys : Entries.keys entries = Entries.keys others)
    (each : ∀ pair ∈ entries.zip others, related pair.1.2 pair.2.2) :
    List.Forall₂ (fun entry other => entry.1 = other.1 ∧ related entry.2 other.2) entries others := by
  simp only [Entries.keys] at keys
  induction entries generalizing others with
  | nil => cases others <;> simp_all
  | cons entry rest ih =>
    cases others with
    | nil => simp at keys
    | cons other others =>
      simp only [List.map_cons, List.cons.injEq] at keys
      simp only [List.zip_cons_cons, List.mem_cons, forall_eq_or_imp] at each
      exact .cons ⟨keys.1, each.1⟩ (ih keys.2 each.2)

/-- Maps with the same keys cover each other when their values do, place by place. -/
theorem coversEntries_of_zip {entries others : Entries String Box}
    (keys : Entries.keys entries = Entries.keys others)
    (each : ∀ pair ∈ entries.zip others, Covers branching pair.1.2 pair.2.2) :
    CoversEntries branching entries others :=
  forall₂_of_keys keys each

/-- Corresponding values are related, and where a key is missing so is what stands in for it. -/
theorem forall₂_getD {related : Box → Box → Prop} {entries others : Entries String Box}
    (pairs : List.Forall₂ (fun entry other => entry.1 = other.1 ∧ related entry.2 other.2) entries
      others) (key : String) (missing : related value other) :
    related ((Entries.get? entries key).getD value) ((Entries.get? others key).getD other) := by
  induction pairs with
  | nil => exact missing
  | cons first _ ih =>
    simp only [Entries.get?, first.1]
    split
    · exact first.2
    · exact ih

/-- Insertions under one key preserve covering. -/
theorem CoversEntries.insert {entries others : Entries String Box}
    (covers : CoversEntries branching entries others) (key : String)
    (values : Covers branching value other) :
    CoversEntries branching (Entries.insert entries key value)
      (Entries.insert others key other) := by
  induction covers with
  | nil => exact .cons ⟨rfl, values⟩ .nil
  | cons first rest ih =>
    simp only [Entries.insert, Entries.update, first.1] at ih ⊢
    split
    · exact .cons ⟨rfl, values⟩ rest
    · exact .cons ⟨rfl, first.2⟩ ih

/-- Insertions of pairs that cover each other preserve covering. -/
theorem CoversEntries.insertAll {entries others pairs added : Entries String Box}
    (covers : CoversEntries branching entries others)
    (contributed : CoversEntries branching pairs added) :
    CoversEntries branching (Entries.insertAll entries pairs)
      (Entries.insertAll others added) := by
  induction contributed generalizing entries others with
  | nil => exact covers
  | @cons pair _ _ _ first _ ih =>
    obtain ⟨key, value⟩ := pair
    obtain ⟨rfl, values⟩ := first
    exact ih (covers.insert _ values)

/-- Items that cover others do so under their positions. -/
theorem coversEntries_positional {items others : List Box}
    (covers : CoversItems branching items others) :
    CoversEntries branching (positional items) (positional others) := by
  unfold positional
  generalize 0 = start
  induction covers generalizing start with
  | nil => exact .nil
  | cons first _ ih =>
    simp only [List.zipIdx_cons, List.map_cons]
    exact .cons ⟨rfl, first⟩ (ih (start + 1))

/-! ### Alternatives -/

/-- Whatever the second box may be is covered by something that the first one may be. -/
theorem Covers.possible (covers : Covers branching box other) {value : Box}
    (found : value ∈ other.possible) : ∃ known ∈ box.possible, Covers branching known value := by
  induction covers with
  | unknown reason node other => exact ⟨_, List.mem_singleton.2 rfl, .unknown ..⟩
  | literal known node other =>
    obtain rfl := List.mem_singleton.1 found
    exact ⟨_, List.mem_singleton.2 rfl, .literal ..⟩
  | list lengths each =>
    obtain rfl := List.mem_singleton.1 found
    exact ⟨_, List.mem_singleton.2 rfl, .list lengths each⟩
  | map keys each =>
    obtain rfl := List.mem_singleton.1 found
    exact ⟨_, List.mem_singleton.2 rfl, .map keys each⟩
  | left _ _ ih =>
    obtain ⟨known, listed, covers⟩ := ih found
    exact ⟨known, List.mem_append_left _ listed, covers⟩
  | right _ _ ih =>
    obtain ⟨known, listed, covers⟩ := ih found
    exact ⟨known, List.mem_append_right _ listed, covers⟩
  | both _ _ _ yes no =>
    rcases List.mem_append.1 found with first | second
    · obtain ⟨known, listed, covers⟩ := yes first
      exact ⟨known, List.mem_append_left _ listed, covers⟩
    · obtain ⟨known, listed, covers⟩ := no second
      exact ⟨known, List.mem_append_right _ listed, covers⟩

/-- What all alternatives of a box agree on, all alternatives of a box that it covers agree on. -/
theorem Covers.agreed {question : Box → Option Bool}
    (leaf : ∀ {known value : Box} {answer : Bool}, Covers branching known value →
      question known = some answer → question value = some answer)
    (covers : Covers branching box other) {answer : Bool}
    (decided : agreed question box = some answer) : agreed question other = some answer := by
  rw [agreed_eq_some] at decided ⊢
  intro value found
  obtain ⟨known, listed, covers⟩ := covers.possible found
  exact leaf covers (decided known listed)

/-- What is decided true or false stays so in everything that is covered. -/
theorem Covers.truthy? (covers : Covers branching box other) {answer : Bool}
    (decided : box.truthy? = some answer) : other.truthy? = some answer := by
  refine covers.agreed (fun covers given => ?_) decided
  cases covers <;> first | exact given | cases given

/-- What is decided nullish or not stays so in everything that is covered. -/
theorem Covers.nullish? (covers : Covers branching box other) {answer : Bool}
    (decided : box.nullish? = some answer) : other.nullish? = some answer := by
  refine covers.agreed (fun covers given => ?_) decided
  cases covers <;> first | exact given | cases given

/-- A box that covers an unresolvable one covers everything. -/
theorem Covers.of_unresolvable (covers : Covers branching box other)
    (unknown : other.isUnresolvable = true) (value : Box) : Covers branching box value := by
  induction covers with
  | unknown => exact .unknown ..
  | left branches _ ih => exact .left branches (ih unknown)
  | right branches _ ih => exact .right branches (ih unknown)
  | _ => simp [isUnresolvable, Box.reason?] at unknown

/-- A box that covers an unresolvable one has an unresolvable alternative. -/
theorem Covers.exists_unresolvable (covers : Covers branching box other)
    (unknown : other.isUnresolvable = true) :
    ∃ known ∈ box.possible, known.isUnresolvable = true := by
  induction covers with
  | unknown => exact ⟨_, List.mem_singleton.2 rfl, rfl⟩
  | left _ _ ih =>
    obtain ⟨known, listed, gone⟩ := ih unknown
    exact ⟨known, List.mem_append_left _ listed, gone⟩
  | right _ _ ih =>
    obtain ⟨known, listed, gone⟩ := ih unknown
    exact ⟨known, List.mem_append_right _ listed, gone⟩
  | _ => simp [isUnresolvable, Box.reason?] at unknown

/-- A box that is not known is its own only alternative. -/
theorem mem_possible_of_isUnresolvable (unknown : box.isUnresolvable = true) :
    box ∈ box.possible := by
  cases box <;> first | exact List.mem_singleton.2 rfl | cases unknown

/-- A box that is not known covers every box. -/
theorem covers_of_isUnresolvable (unknown : box.isUnresolvable = true) (other : Box) :
    Covers branching box other := by
  cases box <;> first | exact .unknown .. | cases unknown

/-- What a value that is not one of several covers is not one of several either. -/
theorem Covers.isDefinite (covers : Covers branching box other) (definite : box.isDefinite = true) :
    other.isDefinite = true := by
  cases covers <;> first | rfl | cases definite

/-- Without conditionals a box is unresolvable or stands for one value. -/
theorem Covers.isUnresolvable_or_isDefinite (covers : Covers false box other) :
    box.isUnresolvable = true ∨ box.isDefinite = true := by
  cases covers <;> first | exact .inl rfl | exact .inr rfl | contradiction

/-- A box that covers the undefined value without having it as an alternative covers everything. -/
theorem Covers.of_undefined (covers : Covers branching box other)
    (undefined : other.isUndefined = true)
    (never : ∀ known ∈ box.possible, known.isUndefined = false) (value : Box) :
    Covers branching box value := by
  induction covers with
  | unknown => exact .unknown ..
  | literal value node =>
    have defined := never (Box.literal value node) (List.mem_singleton.2 rfl)
    cases value with
    | undefined => cases defined
    | _ => cases undefined
  | left branches _ ih =>
    exact .left branches (ih undefined fun known listed => never known (List.mem_append_left _ listed))
  | right branches _ ih =>
    exact .right branches
      (ih undefined fun known listed => never known (List.mem_append_right _ listed))
  | _ => exact (Bool.false_ne_true undefined).elim

/-- A box one alternative of which is unresolvable covers everything. -/
theorem covers_of_possible {known : Box} (found : known ∈ box.possible)
    (unknown : known.isUnresolvable = true) (other : Box) : Covers true box other := by
  induction box with
  | conditional whenTrue whenFalse condition node first second =>
    rcases List.mem_append.1 found with listed | listed
    · exact .left rfl (first listed)
    · exact .right rfl (second listed)
  | unresolvable => exact .unknown ..
  | _ =>
    obtain rfl := List.mem_singleton.1 found
    simp [isUnresolvable, Box.reason?] at unknown

/-- A box without unresolvable alternatives has at least as many of them as a box that it covers. -/
theorem Covers.length_possible_le (covers : Covers branching box other)
    (known : ∀ value ∈ box.possible, value.isUnresolvable = false) :
    other.possible.length ≤ box.possible.length := by
  induction covers with
  | unknown reason node other => simp [Box.possible, isUnresolvable, Box.reason?] at known
  | left _ _ ih =>
    have shorter := ih fun value found => known value (List.mem_append_left _ found)
    simp only [Box.possible, List.length_append]
    omega
  | right _ _ ih =>
    have shorter := ih fun value found => known value (List.mem_append_right _ found)
    simp only [Box.possible, List.length_append]
    omega
  | both _ _ _ yes no =>
    have first := yes fun value found => known value (List.mem_append_left _ found)
    have second := no fun value found => known value (List.mem_append_right _ found)
    simp only [Box.possible, List.length_append]
    omega
  | _ => exact Nat.le_refl _

/-! ### Operations -/

/-- An operation that keeps unresolvable boxes and takes covering values to covering boxes does so
when it is carried into alternatives. -/
theorem Covers.distribute {operation others : Box → Box}
    (unknown : ∀ reason node, operation (unresolvable reason node) = unresolvable reason node)
    (leaf : ∀ {known value : Box}, known.isDefinite = true → Covers branching known value →
      Covers branching (operation known) (others value))
    (covers : Covers branching box other) :
    Covers branching (box.distribute node operation) (other.distribute place others) := by
  induction covers with
  | unknown reason origin =>
    have kept : (unresolvable reason origin).distribute node operation =
        unresolvable reason origin := unknown reason origin
    rw [kept]
    exact .unknown ..
  | literal => exact leaf rfl (.literal ..)
  | list lengths each => exact leaf rfl (.list lengths each)
  | map keys each => exact leaf rfl (.map keys each)
  | left branches _ ih => exact .left branches ih
  | right branches _ ih => exact .right branches ih
  | both branches _ _ yes no => exact .both branches yes no

/-- Items at one position cover each other, or what stands for the missing ones does. -/
theorem CoversItems.getD {items others : List Box} (covers : CoversItems branching items others)
    (position : Nat) (missing : Covers branching value other) :
    Covers branching (items[position]?.getD value) (others[position]?.getD other) := by
  induction covers generalizing position with
  | nil => exact missing
  | cons first _ ih =>
    cases position with
    | zero => exact first
    | succ position => simpa using ih position

/-- The members of a value that is not one of several cover those of the values that it covers. -/
theorem Covers.readLeaf (covers : Covers branching box other) (definite : box.isDefinite = true)
    (key : Primitive) :
    Covers branching (Box.readLeaf key node box) (Box.readLeaf key place other) := by
  cases covers with
  | literal value =>
    cases value with
    | string value =>
      simp only [Box.readLeaf]
      split
      · exact .literal ..
      · split <;> exact .literal ..
    | _ => exact .literal ..
  | list lengths each =>
    simp only [Box.readLeaf, lengths]
    split
    · exact .literal ..
    · cases key.position? with
      | none => exact .literal ..
      | some position => exact (coversItems_of_zip lengths each).getD position (.literal ..)
  | map keys each => exact forall₂_getD (coversEntries_of_zip keys each) _ (.literal ..)
  | _ => cases definite

/-- Reading a member preserves covering. -/
theorem Covers.read (covers : Covers branching box other) (key : Primitive) :
    Covers branching (box.read key node) (other.read key place) :=
  covers.distribute (fun _ _ => rfl) fun definite covers => covers.readLeaf definite key

/-- A result covers itself, whichever node it comes from. -/
theorem covers_ofResult (result : Option Primitive) :
    Covers branching (ofResult node result) (ofResult place result) := by
  cases result with
  | none => exact .unknown ..
  | some value => exact .literal ..

/-- An operator with one operand preserves covering. -/
theorem Covers.unary (covers : Covers branching box other) (operator : Syntax.Unary) :
    Covers branching (box.unary operator node) (other.unary operator place) := by
  refine covers.distribute (fun _ _ => rfl) fun definite covers => ?_
  cases covers with
  | literal => exact covers_ofResult _
  | list | map =>
    cases operator with
    | not | typeOf => exact .literal ..
    | _ => exact .unknown ..
  | _ => cases definite

section Binary

variable {first second : Box}

/-- An operator on two values none of which is one of several. -/
theorem Covers.binaryLeaf (covers : Covers branching box other)
    (coversNext : Covers branching first second) (definite : box.isDefinite = true)
    (definiteNext : first.isDefinite = true) (operator : Syntax.Binary) :
    Covers branching (Box.binaryLeaf operator node box first)
      (Box.binaryLeaf operator place other second) := by
  cases covers with
  | literal =>
    cases coversNext with
    | literal => exact covers_ofResult _
    | list | map => exact .unknown ..
    | _ => cases definiteNext
  | list | map => cases coversNext <;> exact .unknown ..
  | _ => cases definite

/-- On values none of which is one of several an operator has a single result. -/
theorem binary_of_definite (definite : box.isDefinite = true)
    (definiteNext : first.isDefinite = true) (operator : Syntax.Binary) (node : Reference) :
    Box.binary operator node box first = Box.binaryLeaf operator node box first := by
  cases box <;> first
    | exact (Bool.false_ne_true definite).elim
    | cases first <;> first | exact (Bool.false_ne_true definiteNext).elim | rfl

/-- With an unresolvable operand the result is unresolvable. -/
theorem isUnresolvable_binary (unknown : box.isUnresolvable = true ∨ first.isUnresolvable = true)
    (operator : Syntax.Binary) (node : Reference) :
    (Box.binary operator node box first).isUnresolvable = true := by
  unfold Box.binary
  split
  · rfl
  · rw [combine_eq]
    split
    · assumption
    · rw [if_pos (unknown.resolve_left ‹_›)]
      exact unknown.resolve_left ‹_›

/-- An unresolvable alternative of an operand is one of the result. -/
theorem unresolvable_mem_combine (operator : Syntax.Binary) (node : Reference)
    (found : ∃ value ∈ box.possible ++ first.possible, value.isUnresolvable = true) :
    ∃ value ∈ (combine operator node box first).possible, value.isUnresolvable = true := by
  rw [combine_eq]
  split
  · exact ⟨box, mem_possible_of_isUnresolvable ‹_›, ‹_›⟩
  · split
    · exact ⟨first, mem_possible_of_isUnresolvable ‹_›, ‹_›⟩
    · rw [possible_distribute]
      have left : ∀ value ∈ box.possible, value.isUnresolvable = true → ∃ value ∈
          box.possible.flatMap fun a => (if a.isUnresolvable then a else
            first.distribute node fun b => Box.binaryLeaf operator node a b).possible,
          value.isUnresolvable = true := by
        intro value listed unknown
        refine ⟨value, List.mem_flatMap.2 ⟨value, listed, ?_⟩, unknown⟩
        rw [if_pos unknown]
        exact mem_possible_of_isUnresolvable unknown
      obtain ⟨value, listed, unknown⟩ := found
      rcases List.mem_append.1 listed with listed | listed
      · exact left value listed unknown
      · -- Any alternative of the left operand meets the unresolvable one, unless it is one itself.
        obtain ⟨other, rest, others⟩ := List.exists_cons_of_ne_nil box.possible_ne_nil
        have found : other ∈ box.possible := others ▸ List.mem_cons_self ..
        by_cases gone : other.isUnresolvable = true
        · exact left other found gone
        · refine ⟨value, List.mem_flatMap.2 ⟨other, found, ?_⟩, unknown⟩
          rw [if_neg gone, possible_distribute]
          refine List.mem_flatMap.2 ⟨value, listed, ?_⟩
          have result : Box.binaryLeaf operator node other value = value := by
            cases value <;> first
              | exact (Bool.false_ne_true unknown).elim
              | cases other <;> first | rfl | exact (gone rfl).elim
          rw [result]
          exact mem_possible_of_isUnresolvable unknown

/-- Where no alternative is unresolvable the operands are combined alternative by alternative. -/
theorem Covers.combine (covers : Covers branching box other)
    (coversNext : Covers branching first second)
    (known : ∀ value ∈ box.possible ++ first.possible, value.isUnresolvable = false)
    (operator : Syntax.Binary) :
    Covers branching (Box.combine operator node box first)
      (Box.combine operator place other second) := by
  have resolved : ∀ {known value : Box}, Covers branching known value →
      (∀ value ∈ known.possible, value.isUnresolvable = false) → ¬value.isUnresolvable = true := by
    intro known value covers resolved unknown
    obtain ⟨part, listed, gone⟩ := covers.exists_unresolvable unknown
    exact absurd (gone.symm.trans (resolved part listed)) nofun
  have itself : ∀ {known : Box}, (∀ value ∈ known.possible, value.isUnresolvable = false) →
      ¬known.isUnresolvable = true := fun resolved unknown =>
    absurd (unknown.symm.trans (resolved _ (mem_possible_of_isUnresolvable unknown))) nofun
  have left := fun value listed => known value (List.mem_append_left _ listed)
  have right := fun value listed => known value (List.mem_append_right _ listed)
  rw [combine_eq, combine_eq, if_neg (itself left), if_neg (itself right),
    if_neg (resolved covers left), if_neg (resolved coversNext right)]
  refine covers.distribute (fun _ _ => rfl) fun definite covers => ?_
  have some : ∀ {known : Box}, known.isDefinite = true → ¬known.isUnresolvable = true := by
    intro known definite unknown
    cases known <;> first | exact Bool.false_ne_true unknown | cases definite
  rw [if_neg (some definite), if_neg (some (covers.isDefinite definite))]
  refine coversNext.distribute (fun reason node => ?_) fun definiteNext coversNext =>
    covers.binaryLeaf coversNext definite definiteNext operator
  cases covers <;> first | rfl | cases definite

/-- An operator with two operands preserves covering. -/
theorem Covers.binary (covers : Covers branching box other)
    (coversNext : Covers branching first second) (operator : Syntax.Binary) :
    Covers branching (Box.binary operator node box first)
      (Box.binary operator place other second) := by
  cases branching with
  | false =>
    rcases covers.isUnresolvable_or_isDefinite with unknown | definite
    · exact covers_of_isUnresolvable (isUnresolvable_binary (.inl unknown) ..) _
    · rcases coversNext.isUnresolvable_or_isDefinite with unknown | definiteNext
      · exact covers_of_isUnresolvable (isUnresolvable_binary (.inr unknown) ..) _
      · rw [binary_of_definite definite definiteNext,
          binary_of_definite (covers.isDefinite definite) (coversNext.isDefinite definiteNext)]
        exact covers.binaryLeaf coversNext definite definiteNext operator
  | true =>
    unfold Box.binary
    split
    · exact .unknown ..
    · rename_i few
      by_cases found : ∃ value ∈ box.possible ++ first.possible, value.isUnresolvable = true
      · obtain ⟨value, listed, unknown⟩ := unresolvable_mem_combine operator node found
        exact covers_of_possible listed unknown _
      · have known : ∀ value ∈ box.possible ++ first.possible, value.isUnresolvable = false :=
          fun value listed => Bool.eq_false_iff.2 fun unknown => found ⟨value, listed, unknown⟩
        have fewer := Nat.mul_le_mul
          (covers.length_possible_le fun value listed => known value (List.mem_append_left _ listed))
          (coversNext.length_possible_le fun value listed =>
            known value (List.mem_append_right _ listed))
        rw [if_neg (by omega)]
        exact covers.combine coversNext known operator

end Binary

/-! ### Spreading -/

/-- The characters of a text cover themselves, whichever nodes they come from. -/
theorem coversItems_characters (value : String) (node other : Option Reference) :
    CoversItems branching (characters value node) (characters value other) :=
  List.forall₂_map_left_iff.2 (List.forall₂_map_right_iff.2
    (List.forall₂_same.2 fun _ _ => .literal ..))

/-- The items that a value contributes cover those that the values it covers contribute, unless it is
unknown how many there are. -/
theorem Covers.spreadItems (covers : Covers branching box other) (definite : box.isDefinite = true)
    (node : Reference) : CoversItems branching (box.spreadItems node) (other.spreadItems node) := by
  cases covers with
  | literal value =>
    cases value with
    | string => exact coversItems_characters ..
    | _ => exact .cons (.unknown ..) .nil
  | list lengths each => exact coversItems_of_zip lengths each
  | map => exact .cons (.unknown ..) .nil
  | _ => cases definite

/-- The entries after a spread cover those after a spread of a value that is covered, unless it is
unknown which keys it has. -/
theorem Covers.spread {entries others : Entries String Box} (covers : Covers branching box other)
    (definite : box.isDefinite = true) (before : CoversEntries branching entries others)
    (fallback : String) (node : Reference) :
    CoversEntries branching (box.spread fallback node entries)
      (other.spread fallback node others) := by
  cases covers with
  | literal value =>
    cases value with
    | string => exact before.insertAll (coversEntries_positional (coversItems_characters ..))
    | _ => exact before
  | list lengths each =>
    exact before.insertAll (coversEntries_positional (coversItems_of_zip lengths each))
  | map keys each => exact before.insertAll (coversEntries_of_zip keys each)
  | _ => cases definite

/-! ### Boxes without unresolvable parts -/

/-- Where conditionals cover nothing, a box without unresolvable parts covers only boxes that are
alike. -/
theorem Covers.alike (covers : Covers false box other) (resolved : box.unresolvables = []) :
    Alike .blind box other := by
  induction covers with
  | unknown => cases resolved
  | literal => simp [Alike, View.blind]
  | @list items others node other lengths _ ih =>
    rw [unresolvables, unresolvablesOfItems_eq, List.flatMap_eq_nil_iff] at resolved
    have same : List.Forall₂ (Alike .blind) items others :=
      List.forall₂_iff_zip.2 ⟨lengths, fun found =>
        ih _ found (resolved _ (List.of_mem_zip found).1)⟩
    have shown : items.map (seen .blind) = others.map (seen .blind) := by
      rw [← List.forall₂_eq_eq_eq, List.forall₂_map_left_iff, List.forall₂_map_right_iff]
      exact same
    rw [Alike, seen_list, seen_list, shown]
    rfl
  | @map entries others node other keys _ ih =>
    rw [unresolvables, unresolvablesOfEntries_eq, List.flatMap_eq_nil_iff] at resolved
    have same : List.Forall₂ (fun entry other => entry.1 = other.1 ∧ Alike .blind entry.2 other.2)
        entries others :=
      forall₂_of_keys keys fun _ found => ih _ found (resolved _ (List.of_mem_zip found).1)
    have shown : Entries.mapValues (seen .blind) entries = Entries.mapValues (seen .blind) others := by
      rw [Entries.mapValues, Entries.mapValues, ← List.forall₂_eq_eq_eq,
        List.forall₂_map_left_iff, List.forall₂_map_right_iff]
      exact same.imp fun _ _ equal => Prod.ext equal.1 equal.2
    rw [Alike, seen_map, seen_map, shown]
    rfl
  | left branches => cases branches
  | right branches => cases branches
  | both branches => cases branches

end Glean.Box
