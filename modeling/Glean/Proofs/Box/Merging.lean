import Glean.Proofs.Box.Spreading

/-!
# Conditional values in objects

A conditional value that is spread leaves under each key one of what its alternatives leave there
(`either`), where a key that an alternative does not leave is undefined. So after it there are the
keys of all alternatives, and under each key stands, up to equality, what they leave there and
nothing else (`spread_unites`).
-/

namespace Glean.Box

variable {fallback key : String} {node : Reference} {entries : Entries String Box} {box : Box}

/-- What is found under a key, where a key that is missing is undefined. -/
def valueAt (entries : Entries String Box) (key : String) : Box :=
  (Entries.get? entries key).getD missing

/-- Two lists hold the same boxes, up to equality, wherever they stand and however often. -/
def SameValues (left right : List Box) : Prop :=
  (∀ value ∈ left, ∃ other ∈ right, (value == other) = true) ∧
    ∀ other ∈ right, ∃ value ∈ left, (other == value) = true

namespace SameValues

variable {left middle right others : List Box}

/-- Every list has its own values. -/
theorem refl (values : List Box) : SameValues values values :=
  ⟨fun value listed => ⟨value, listed, BEq.rfl⟩, fun value listed => ⟨value, listed, BEq.rfl⟩⟩

/-- Having the same values is transitive. -/
theorem trans (first : SameValues left middle) (second : SameValues middle right) :
    SameValues left right := by
  refine ⟨fun value listed => ?_, fun other listed => ?_⟩
  · obtain ⟨between, found, same⟩ := first.1 value listed
    obtain ⟨other, found, next⟩ := second.1 between found
    exact ⟨other, found, BEq.trans same next⟩
  · obtain ⟨between, found, same⟩ := second.2 other listed
    obtain ⟨value, found, next⟩ := first.2 between found
    exact ⟨value, found, BEq.trans same next⟩

/-- Two lists may stand either way round. -/
theorem comm (left right : List Box) : SameValues (left ++ right) (right ++ left) :=
  ⟨fun value listed => ⟨value, List.mem_append.2 (List.mem_append.1 listed).symm, BEq.rfl⟩,
    fun value listed => ⟨value, List.mem_append.2 (List.mem_append.1 listed).symm, BEq.rfl⟩⟩

/-- Appending preserves having the same values. -/
theorem append {leftNext rightNext : List Box} (first : SameValues left right)
    (second : SameValues leftNext rightNext) :
    SameValues (left ++ leftNext) (right ++ rightNext) := by
  refine ⟨fun value listed => ?_, fun other listed => ?_⟩
  · rcases List.mem_append.1 listed with listed | listed
    · obtain ⟨other, found, same⟩ := first.1 value listed
      exact ⟨other, List.mem_append_left _ found, same⟩
    · obtain ⟨other, found, same⟩ := second.1 value listed
      exact ⟨other, List.mem_append_right _ found, same⟩
  · rcases List.mem_append.1 listed with listed | listed
    · obtain ⟨value, found, same⟩ := first.2 other listed
      exact ⟨value, List.mem_append_left _ found, same⟩
    · obtain ⟨value, found, same⟩ := second.2 other listed
      exact ⟨value, List.mem_append_right _ found, same⟩

end SameValues

/-- Of every alternative of a box there is an equal one of an equal box. -/
theorem exists_possible_of_same {box other value : Box} (equal : (box == other) = true)
    (found : value ∈ box.possible) : ∃ twin ∈ other.possible, (value == twin) = true := by
  have pairs := possible_of_same equal
  generalize box.possible = values at found pairs
  generalize other.possible = twins at pairs
  induction pairs with
  | nil => cases found
  | cons first _ ih =>
    rcases List.mem_cons.1 found with rfl | found
    · exact ⟨_, List.mem_cons_self .., first⟩
    · obtain ⟨twin, listed, same⟩ := ih found
      exact ⟨twin, List.mem_cons_of_mem _ listed, same⟩

/-- One of two outcomes may be what either of them may be. -/
theorem possible_either (condition : Option Reference) (node : Reference) (whenTrue whenFalse : Box) :
    SameValues (either condition node whenTrue whenFalse).possible
      (whenTrue.possible ++ whenFalse.possible) := by
  unfold either
  split
  · rename_i equal
    refine ⟨fun value found => ⟨value, List.mem_append_left _ found, BEq.rfl⟩, ?_⟩
    intro other found
    rcases List.mem_append.1 found with found | found
    · exact ⟨other, found, BEq.rfl⟩
    · exact exists_possible_of_same (BEq.symm equal) found
  · exact .refl _

/-- Under every key of a merge, present or not, stands one of what both outcomes have there. -/
theorem valueAt_merge (condition : Option Reference) (node : Reference)
    (whenTrue whenFalse : Entries String Box) (key : String) :
    valueAt (merge condition node whenTrue whenFalse) key =
      either condition node (valueAt whenTrue key) (valueAt whenFalse key) := by
  unfold valueAt
  rw [get?_merge]
  cases first : Entries.get? whenTrue key with
  | some => simp [Entries.contains, first]
  | none =>
    cases second : Entries.get? whenFalse key with
    | some => simp [Entries.contains, first, second]
    | none => simp [Entries.contains, first, second, either_self]

/-- A conditional value that is spread into entries leaves the keys that its alternatives leave, and
under each key, present or not, what the alternatives leave there. -/
theorem spread_unites (fallback : String) (node : Reference) (entries : Entries String Box)
    (box : Box) (key : String) :
    (key ∈ Entries.keys (box.spread fallback node entries) ↔
        ∃ value ∈ box.possible, key ∈ Entries.keys (value.spread fallback node entries)) ∧
      SameValues (valueAt (box.spread fallback node entries) key).possible
        (box.possible.flatMap fun value =>
          (valueAt (value.spread fallback node entries) key).possible) := by
  induction box using alternatives_induction with
  | single box single =>
    rw [possible_of_value single]
    exact ⟨by simp, by simpa using SameValues.refl _⟩
  | conditional whenTrue whenFalse condition origin first second =>
    obtain ⟨keysFirst, valuesFirst⟩ := first
    obtain ⟨keysSecond, valuesSecond⟩ := second
    rw [possible, List.flatMap_append, spread, valueAt_merge]
    constructor
    · rw [← Entries.contains_iff, contains_of_keys (keys_merge ..), Bool.or_eq_true,
        Entries.contains_iff, Entries.contains_iff, keysFirst, keysSecond]
      simp only [List.mem_append, or_and_right, exists_or]
    · exact (possible_either ..).trans (valuesFirst.append valuesSecond)

end Glean.Box
