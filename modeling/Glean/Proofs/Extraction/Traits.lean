import Glean.Extraction.Report
import Glean.Proofs.Box.References

/-!
# Traits of reports

A report keeps to a trait when its instances and the boxes listed for their properties do. Each of
these boxes is a part of an instance, so the report of instances with a trait has it
(`Report.has_ofList`), and its nodes are admitted (`Report.Has.nodes`).
-/

namespace Glean

open Box

variable {trait : Trait}

namespace Instance

/-- The node and the box of an instance keep to a trait. -/
def Has (trait : Trait) (inst : Instance) : Prop := trait.Nodes inst.node ∧ Box.Has trait inst.box

/-- The nodes of an instance: its own and those of its box. -/
def references (inst : Instance) : List Reference := inst.node :: inst.box.references

/-- The references in an instance with the trait are admitted. -/
theorem Has.nodes {inst : Instance} (has : inst.Has trait) :
    ∀ place ∈ inst.references, trait.Nodes place := by
  intro place found
  rcases List.mem_cons.1 found with rfl | found
  · exact has.1
  · exact has.2.nodes place found

/-- The boxes of the properties of an instance are parts of its box. -/
theorem Has.properties {inst : Instance} (has : inst.Has trait) :
    ∀ entry ∈ inst.properties, Box.Has trait entry.2 := by
  have indexed : ∀ box ∈ inst.indexed, Box.Has trait box := by
    intro box found
    unfold indexed at found
    split at found
    · obtain rfl := List.mem_singleton.1 found
      exact has.2
    · obtain ⟨item, listed, found⟩ := List.mem_flatMap.1 found
      exact (has.2.items item listed).possible box found
    · cases found
  intro entry found
  obtain ⟨box, listed, found⟩ := List.mem_flatMap.1 found
  exact (indexed box listed).properties entry found

end Instance

namespace Group

/-- The instances of a group and the boxes listed for properties keep to a trait. -/
structure Has (trait : Trait) (group : Group) : Prop where
  instances : ∀ inst ∈ group.instances, inst.Has trait
  properties : ∀ entry ∈ group.properties, ∀ box ∈ entry.2, Box.Has trait box

/-- The nodes of the instances and of the boxes listed for properties. -/
def references (group : Group) : List Reference :=
  group.instances.flatMap Instance.references ++
    group.properties.flatMap fun entry => entry.2.flatMap Box.references

/-- The references in a group with the trait are admitted. -/
theorem Has.nodes {group : Group} (has : group.Has trait) :
    ∀ place ∈ group.references, trait.Nodes place := by
  intro place found
  rcases List.mem_append.1 found with found | found
  · obtain ⟨inst, listed, found⟩ := List.mem_flatMap.1 found
    exact (has.instances inst listed).nodes place found
  · obtain ⟨entry, listed, found⟩ := List.mem_flatMap.1 found
    obtain ⟨box, among, found⟩ := List.mem_flatMap.1 found
    exact (has.properties entry listed box among).nodes place found

/-- A group with the trait still has it after one more instance with it. -/
theorem Has.push {group : Group} {inst : Instance} (has : group.Has trait)
    (added : inst.Has trait) : (group.push inst).Has trait where
  instances other found := by
    rcases List.mem_append.1 found with found | found
    · exact has.instances other found
    · obtain rfl := List.mem_singleton.1 found
      exact added
  properties := by
    have each := added.properties
    simp only [Group.push]
    generalize inst.properties = list at each
    have before := has.properties
    generalize group.properties = properties at before
    induction list generalizing properties with
    | nil => exact before
    | cons first rest ih =>
      refine ih (fun entry found => each entry (List.mem_cons_of_mem _ found)) _ ?_
      intro entry found box listed
      have one : Box.Has trait first.2 := each first (List.mem_cons_self ..)
      rcases Entries.mem_update found with found | ⟨name, boxes, among, rfl⟩ | rfl
      · exact before entry found box listed
      · rcases List.mem_append.1 listed with listed | listed
        · exact before _ among box listed
        · exact List.mem_singleton.1 listed ▸ one
      · exact List.mem_singleton.1 listed ▸ one

end Group

namespace Report

/-- The groups of a report keep to a trait. -/
def Has (trait : Trait) (report : Report) : Prop := ∀ entry ∈ report.groups, entry.2.Has trait

/-- The nodes of all groups. -/
def references (report : Report) : List Reference :=
  report.groups.flatMap fun entry => entry.2.references

/-- The references in a report with the trait are admitted. -/
theorem Has.nodes {report : Report} (has : report.Has trait) :
    ∀ place ∈ report.references, trait.Nodes place := by
  intro place found
  obtain ⟨entry, listed, found⟩ := List.mem_flatMap.1 found
  exact (has entry listed).nodes place found

/-- A report with the trait still has it after one more instance with it. -/
theorem Has.push {report : Report} {inst : Instance} (has : report.Has trait)
    (added : inst.Has trait) : (report.push inst).Has trait := by
  intro entry found
  rcases Entries.mem_update found with found | ⟨name, group, listed, rfl⟩ | rfl
  · exact has entry found
  · exact (has _ listed).push added
  · exact Group.Has.push ⟨nofun, nofun⟩ added

/-- A report of instances with a trait has it. -/
theorem has_ofList {instances : List Instance} (each : ∀ inst ∈ instances, inst.Has trait) :
    (ofList instances).Has trait := by
  have added : ∀ report : Report, report.Has trait → (instances.foldl push report).Has trait := by
    induction instances with
    | nil => exact fun _ has => has
    | cons inst rest ih =>
      intro report has
      have first := has.push (each inst (List.mem_cons_self ..))
      exact ih (fun other found => each other (List.mem_cons_of_mem _ found)) _ first
  exact added {} nofun

end Report

end Glean
