import Glean.Entries
import Glean.Extraction.Report

/-!
# What a report holds

Instances are only ever added to a report, each to the group of its name, where its properties are
listed with their boxes.
-/

namespace Glean

/-- A box is among those seen for a property of the group. -/
def Group.Lists (group : Group) (property : String) (box : Box) : Prop :=
  ∃ boxes, Entries.get? group.properties property = some boxes ∧ box ∈ boxes

/-- What a group lists it keeps, and it lists the properties of an instance that is added. -/
theorem Group.lists_push {group : Group} {inst : Instance} {property : String} {box : Box}
    (listed : (property, box) ∈ inst.properties ∨ group.Lists property box) :
    (group.push inst).Lists property box := by
  unfold Group.Lists at listed ⊢
  unfold Group.push
  generalize inst.properties = pairs at listed ⊢
  generalize group.properties = properties at listed ⊢
  dsimp only
  induction pairs generalizing properties with
  | nil => exact listed.resolve_left List.not_mem_nil
  | cons pair pairs ih =>
    obtain ⟨name, value⟩ := pair
    refine ih _ ?_
    rw [Entries.get?_update]
    rcases listed with first | ⟨boxes, found, among⟩
    · rcases List.mem_cons.1 first with same | later
      · cases same
        exact .inr ⟨(Entries.get? properties property).getD [] ++ [box], by simp,
          List.mem_append_right _ (List.mem_singleton_self _)⟩
      · exact .inl later
    · by_cases same : name = property
      · exact .inr ⟨boxes ++ [value], by simp [same, found], List.mem_append_left _ among⟩
      · exact .inr ⟨boxes, by simp [same, found], among⟩

namespace Report

section Kept

variable {report : Report} {name : String} {holds : Group → Prop}
  (kept : ∀ group other, holds group → holds (group.push other))

include kept

/-- A group that has a property which further instances keep still has it after one more. -/
theorem kept_push (held : ∃ group, Entries.get? report.groups name = some group ∧ holds group)
    (other : Instance) :
    ∃ group, Entries.get? (report.push other).groups name = some group ∧ holds group := by
  obtain ⟨group, found, held⟩ := held
  rw [Report.push, Entries.get?_update]
  by_cases same : other.name = name
  · exact ⟨group.push other, by simp [same, found], kept group other held⟩
  · exact ⟨group, by simpa [same] using found, held⟩

/-- A group that has a property which further instances keep still has it after all of them. -/
theorem kept_foldl (held : ∃ group, Entries.get? report.groups name = some group ∧ holds group)
    (others : List Instance) :
    ∃ group, Entries.get? (others.foldl Report.push report).groups name = some group ∧
      holds group := by
  induction others generalizing report with
  | nil => exact held
  | cons other rest ih => exact ih (kept_push kept held other)

/-- What an instance brings to its group stays there when more instances are added. -/
theorem kept_ofList {instances : List Instance} {inst : Instance}
    (brings : ∀ group : Group, holds (group.push inst)) (listed : inst ∈ instances) :
    ∃ group, Entries.get? (Report.ofList instances).groups inst.name = some group ∧
      holds group := by
  obtain ⟨before, after, rfl⟩ := List.mem_iff_append.1 listed
  rw [ofList, List.foldl_append]
  let before := before.foldl Report.push {}
  let group := (Entries.get? before.groups inst.name).getD { kind := inst.kind.group }
  have pushed : Entries.get? (before.push inst).groups inst.name = some (group.push inst) := by
    rw [push, Entries.get?_update]
    simp [group]
  exact kept_foldl kept ⟨group.push inst, pushed, brings group⟩ after

end Kept

/-- The group of an instance's name holds the instance. -/
def Holds (report : Report) (inst : Instance) : Prop :=
  ∃ group, Entries.get? report.groups inst.name = some group ∧ inst ∈ group.instances

/-- A report holds every instance that it is made of. -/
theorem holds_ofList {instances : List Instance} {inst : Instance} (listed : inst ∈ instances) :
    (Report.ofList instances).Holds inst :=
  kept_ofList (fun _ _ => List.mem_append_left _)
    (fun _ => List.mem_append_right _ (List.mem_singleton_self _)) listed

/-- The group of a name lists a box for a property. -/
def Indexes (report : Report) (name property : String) (box : Box) : Prop :=
  ∃ group, Entries.get? report.groups name = some group ∧ group.Lists property box

/-- A report lists every property of the instances that it is made of. -/
theorem indexes_ofList {instances : List Instance} {inst : Instance} (listed : inst ∈ instances)
    {property : String} {box : Box} (seen : (property, box) ∈ inst.properties) :
    (Report.ofList instances).Indexes inst.name property box :=
  kept_ofList (fun _ _ held => Group.lists_push (.inr held))
    (fun _ => Group.lists_push (.inl seen)) listed

end Report

end Glean
