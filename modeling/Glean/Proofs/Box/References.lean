import Glean.Proofs.Box.Traits

/-!
# The nodes of a box

Every node that a box comes from, at any depth, with those of its conditions. What a trait admits as
origin of parts holds of all of them (`Has.nodes`).
-/

namespace Glean.Box

mutual

/-- The nodes that a box and its parts come from, and the conditions in it. -/
def references : Box → List Reference
  | literal _ node | unresolvable _ node => node.toList
  | list items node => node.toList ++ referencesOfItems items
  | map entries node => node.toList ++ referencesOfEntries entries
  | conditional whenTrue whenFalse condition node =>
    node.toList ++ condition.toList ++ whenTrue.references ++ whenFalse.references

/-- The nodes of all items. -/
def referencesOfItems : List Box → List Reference
  | [] => []
  | item :: rest => item.references ++ referencesOfItems rest

/-- The nodes of the values of all entries. -/
def referencesOfEntries : List (String × Box) → List Reference
  | [] => []
  | (_, value) :: rest => value.references ++ referencesOfEntries rest

end

/-- The references in items are those of each item, in order. -/
theorem referencesOfItems_eq (items : List Box) :
    referencesOfItems items = items.flatMap references := by
  induction items with
  | nil => rfl
  | cons item rest ih => rw [referencesOfItems, ih, List.flatMap_cons]

/-- The references in entries are those of each value, in order. -/
theorem referencesOfEntries_eq (entries : List (String × Box)) :
    referencesOfEntries entries = entries.flatMap fun entry => entry.2.references := by
  induction entries with
  | nil => rfl
  | cons entry rest ih => rw [referencesOfEntries, ih, List.flatMap_cons]

variable {trait : Trait} {box : Box}

/-- Every node of a box with a trait is admitted. -/
theorem Has.nodes (has : Has trait box) : ∀ place ∈ box.references, trait.Nodes place := by
  have admitted : ∀ {node : Option Reference}, trait.Origin node →
      ∀ place ∈ node.toList, trait.Nodes place :=
    fun origin place found => origin place (Option.mem_toList.1 found)
  induction has with
  | literal _ origin | unresolvable _ origin => exact admitted origin
  | list each origin ih =>
    intro place found
    rw [references, referencesOfItems_eq] at found
    rcases List.mem_append.1 found with found | found
    · exact admitted origin place found
    · obtain ⟨item, listed, found⟩ := List.mem_flatMap.1 found
      exact ih item listed place found
  | map each origin ih =>
    intro place found
    rw [references, referencesOfEntries_eq] at found
    rcases List.mem_append.1 found with found | found
    · exact admitted origin place found
    · obtain ⟨entry, listed, found⟩ := List.mem_flatMap.1 found
      exact ih entry listed place found
  | conditional _ _ _ asked origin yes no =>
    intro place found
    simp only [references, List.mem_append] at found
    rcases found with ((found | found) | found) | found
    · exact admitted origin place found
    · exact admitted asked place found
    · exact yes place found
    · exact no place found

/-- A box whose nodes are all admitted has the trait, if nothing else is restricted. -/
theorem has_of_references (reasons : ∀ reason, trait.Reasons reason) (splits : trait.Splits)
    (admitted : ∀ place ∈ box.references, trait.Nodes place) : Has trait box := by
  have origin : ∀ {node : Option Reference}, (∀ place ∈ node.toList, trait.Nodes place) →
      trait.Origin node :=
    fun each place found => each place (Option.mem_toList.2 found)
  induction box with
  | literal value node => exact .literal value (origin admitted)
  | list items node each =>
    rw [references, referencesOfItems_eq] at admitted
    obtain ⟨here, inside⟩ := List.forall_mem_append.1 admitted
    refine .list (fun item listed => each item listed fun place found => ?_) (origin here)
    exact inside place (List.mem_flatMap.2 ⟨item, listed, found⟩)
  | map entries node each =>
    rw [references, referencesOfEntries_eq] at admitted
    obtain ⟨here, inside⟩ := List.forall_mem_append.1 admitted
    refine .map (fun entry listed => each entry listed fun place found => ?_) (origin here)
    exact inside place (List.mem_flatMap.2 ⟨entry, listed, found⟩)
  | conditional whenTrue whenFalse condition node yes no =>
    simp only [references, List.forall_mem_append] at admitted
    obtain ⟨⟨⟨here, asked⟩, first⟩, second⟩ := admitted
    exact .conditional splits (yes first) (no second) (origin asked) (origin here)
  | unresolvable reason node => exact .unresolvable (reasons reason) (origin admitted)

/-- Each value that a box may take has its trait. -/
theorem Has.possible (has : Has trait box) : ∀ value ∈ box.possible, Has trait value := by
  induction has with
  | conditional _ _ _ _ _ yes no =>
    intro value found
    exact (List.mem_append.1 found).elim (yes value) (no value)
  | literal value origin =>
    exact fun _ found => List.mem_singleton.1 found ▸ .literal value origin
  | list each origin => exact fun _ found => List.mem_singleton.1 found ▸ .list each origin
  | map each origin => exact fun _ found => List.mem_singleton.1 found ▸ .map each origin
  | unresolvable admitted origin =>
    exact fun _ found => List.mem_singleton.1 found ▸ .unresolvable admitted origin

/-- The items of a box, if it is a list, have its trait. -/
theorem Has.items (has : Has trait box) : ItemsHave trait (box.items?.getD []) := by
  cases has with
  | list each => exact each
  | _ => exact nofun

end Glean.Box
