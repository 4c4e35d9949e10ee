import Glean.Extraction.Report
import Glean.Proofs.Box.Nodes

/-!
# Reports of fewer properties

A restricted report has only the properties that pass, wherever properties are taken from: in the
objects of elements, in each object that an argument of a call may be, and in the lists of boxes by
property. Restricting instances before or after a report is made of them gives the same report, and
so does looking at their nodes (`Report.ofList_map`).
-/

namespace Glean

/-- The box with only the keys that pass, in each object that it may be. -/
def Box.restrict (passes : String → Bool) : Box → Box
  | .map entries node => .map (Entries.keep passes entries) node
  | .conditional whenTrue whenFalse condition node =>
    .conditional (whenTrue.restrict passes) (whenFalse.restrict passes) condition node
  | box => box

/-- A box with each item of a list changed. -/
def Box.mapItems (change : Box → Box) : Box → Box
  | .list items node => .list (items.map change) node
  | box => box

namespace Box

variable {passes : String → Bool}

/-- The values that a restricted box may take are restricted one by one. -/
theorem possible_restrict (box : Box) :
    (box.restrict passes).possible = box.possible.map (restrict passes) := by
  induction box with
  | conditional _ _ _ _ first second => simp [restrict, possible, first, second]
  | _ => rfl

/-- The entries of a restricted box are those that pass. -/
theorem entries_restrict (box : Box) :
    (box.restrict passes).entries?.getD [] = Entries.keep passes (box.entries?.getD []) := by
  cases box <;> rfl

/-- The entries of what is seen of a box are its entries, seen. -/
theorem entries_seen (view : View) (box : Box) :
    (box.seen view).entries?.getD [] =
      Entries.mapValues (seen view) (box.entries?.getD []) := by
  cases box <;> simp [entries?, Entries.mapValues]

/-- The items of what is seen of a box are its items, seen. -/
theorem items_seen (view : View) (box : Box) :
    (box.seen view).items?.getD [] = (box.items?.getD []).map (seen view) := by
  cases box <;> simp [items?]

/-- The items of a box are changed one by one. -/
theorem items_mapItems (change : Box → Box) (box : Box) :
    (box.mapItems change).items?.getD [] = (box.items?.getD []).map change := by
  cases box <;> rfl

end Box

namespace Instance

/-- The instance with only the properties that pass. A template has none. -/
def restrict (passes : String → Bool) (inst : Instance) : Instance :=
  { inst with
    box :=
      match inst.kind with
      | .element => inst.box.restrict passes
      | .call => inst.box.mapItems (Box.restrict passes)
      | .template => inst.box }

/-- The instance with the nodes in its box as they are seen. -/
def seen (view : View) (inst : Instance) : Instance := { inst with box := inst.box.seen view }

/-- The properties of a restricted instance are those that pass. -/
theorem properties_restrict (passes : String → Bool) (inst : Instance) :
    (inst.restrict passes).properties = Entries.keep passes inst.properties := by
  obtain ⟨name, kind, node, box⟩ := inst
  cases kind with
  | element => simp [restrict, properties, indexed, Box.entries_restrict]
  | call =>
    have filtered : ∀ list : List Box,
        (list.map (Box.restrict passes)).flatMap (fun item => item.entries?.getD []) =
          Entries.keep passes (list.flatMap fun item => item.entries?.getD []) := by
      intro list
      simp [List.flatMap_map, Box.entries_restrict, Entries.keep, List.filter_flatMap]
    have values : ((box.mapItems (Box.restrict passes)).items?.getD []).flatMap Box.possible =
        ((box.items?.getD []).flatMap Box.possible).map (Box.restrict passes) := by
      rw [Box.items_mapItems]
      simp [List.flatMap_map, List.map_flatMap, Box.possible_restrict]
    simp only [restrict, properties, indexed, values, filtered]
  | template => rfl

/-- The properties of what is seen of an instance are its properties, seen. -/
theorem properties_seen (view : View) (inst : Instance) :
    (inst.seen view).properties = Entries.mapValues (Box.seen view) inst.properties := by
  obtain ⟨name, kind, node, box⟩ := inst
  have looked : ∀ list : List Box,
      (list.map (Box.seen view)).flatMap (fun item => item.entries?.getD []) =
        Entries.mapValues (Box.seen view) (list.flatMap fun item => item.entries?.getD []) := by
    intro list
    simp [List.flatMap_map, Box.entries_seen, Entries.mapValues, List.map_flatMap]
  cases kind with
  | element => exact looked [box]
  | call =>
    have values : ((box.seen view).items?.getD []).flatMap Box.possible =
        ((box.items?.getD []).flatMap Box.possible).map (Box.seen view) := by
      rw [Box.items_seen]
      simp [List.flatMap_map, List.map_flatMap, Box.possible_seen]
    simp only [seen, properties, indexed, values, looked]
  | template => rfl

end Instance

namespace Group

/-- The group with only the properties that pass. -/
def restrict (passes : String → Bool) (group : Group) : Group :=
  { group with
    instances := group.instances.map (Instance.restrict passes)
    properties := Entries.keep passes group.properties }

/-- The group with the nodes in its boxes as they are seen. -/
def seen (view : View) (group : Group) : Group :=
  { group with
    instances := group.instances.map (Instance.seen view)
    properties := Entries.mapValues (List.map (Box.seen view)) group.properties }

/-- An instance is added to a group before or after both are restricted. -/
theorem restrict_push (passes : String → Bool) (group : Group) (inst : Instance) :
    (group.push inst).restrict passes = (group.restrict passes).push (inst.restrict passes) := by
  simp only [push, restrict, List.map_append, List.map_cons, List.map_nil,
    Instance.properties_restrict, Group.mk.injEq, true_and]
  generalize group.properties = properties
  induction inst.properties generalizing properties with
  | nil => rfl
  | cons first rest ih =>
    obtain ⟨property, box⟩ := first
    rw [List.foldl_cons, ih, Entries.keep_update, Entries.keep_cons]
    by_cases passed : passes property
    · rw [if_pos passed, if_pos passed, List.foldl_cons]
    · rw [if_neg passed, if_neg passed]

/-- An instance is added to a group before or after both are seen. -/
theorem seen_push (view : View) (group : Group) (inst : Instance) :
    (group.push inst).seen view = (group.seen view).push (inst.seen view) := by
  simp only [push, seen, List.map_append, List.map_cons, List.map_nil,
    Instance.properties_seen, Group.mk.injEq, true_and]
  generalize group.properties = properties
  induction inst.properties generalizing properties with
  | nil => rfl
  | cons first rest ih =>
    obtain ⟨property, box⟩ := first
    let append (box : Box) (boxes : Option (List Box)) : List Box := boxes.getD [] ++ [box]
    have along : ∀ boxes : Option (List Box),
        append (box.seen view) (boxes.map (List.map (Box.seen view))) =
          (append box boxes).map (Box.seen view) := by
      intro boxes
      cases boxes <;> simp [append]
    have added := Entries.update_mapValues _ _ along properties property
    rw [List.foldl_cons, ih, ← added]
    rfl

end Group

namespace Report

/-- The report with every group changed. -/
def mapGroups (change : Group → Group) (report : Report) : Report :=
  { groups := Entries.mapValues change report.groups }

/-- The report with only the properties that pass. -/
def restrict (passes : String → Bool) : Report → Report := mapGroups (Group.restrict passes)

/-- The report with the nodes in its boxes as they are seen. The nodes of instances stay. -/
def seen (view : View) : Report → Report := mapGroups (Group.seen view)

/-- A change of groups along with a change of their instances can be made before or after a report
is made of the instances. -/
theorem ofList_map (change : Instance → Instance) (changeGroup : Group → Group)
    (names : ∀ inst, (change inst).name = inst.name)
    (starts : ∀ inst : Instance, changeGroup { kind := inst.kind.group } =
      { kind := (change inst).kind.group })
    (pushes : ∀ group inst, changeGroup (group.push inst) = (changeGroup group).push (change inst))
    (instances : List Instance) :
    ofList (instances.map change) = (ofList instances).mapGroups changeGroup := by
  have step : ∀ (report : Report) (inst : Instance),
      (report.mapGroups changeGroup).push (change inst) =
        (report.push inst).mapGroups changeGroup := by
    intro report inst
    have along : ∀ group : Option Group,
        ((group.map changeGroup).getD { kind := (change inst).kind.group }).push (change inst) =
          changeGroup ((group.getD { kind := inst.kind.group }).push inst) := by
      intro group
      rw [pushes]
      cases group with
      | none => rw [Option.map_none, Option.getD_none, Option.getD_none, starts]
      | some group => rfl
    simp only [push, mapGroups, names]
    rw [Entries.update_mapValues _ _ along]
  have walk : ∀ report : Report, (instances.map change).foldl push (report.mapGroups changeGroup) =
      (instances.foldl push report).mapGroups changeGroup := by
    induction instances with
    | nil => exact fun _ => rfl
    | cons inst rest ih =>
      intro report
      rw [List.map_cons, List.foldl_cons, List.foldl_cons, step, ih]
  exact walk {}

/-- The report of restricted instances is the restricted report. -/
theorem ofList_restrict (passes : String → Bool) (instances : List Instance) :
    ofList (instances.map (Instance.restrict passes)) = (ofList instances).restrict passes :=
  ofList_map (Instance.restrict passes) (Group.restrict passes) (fun _ => rfl) (fun _ => rfl)
    (Group.restrict_push passes) instances

/-- The report of what is seen of instances is what is seen of the report. -/
theorem ofList_seen (view : View) (instances : List Instance) :
    ofList (instances.map (Instance.seen view)) = (ofList instances).seen view :=
  ofList_map (Instance.seen view) (Group.seen view) (fun _ => rfl) (fun _ => rfl)
    (Group.seen_push view) instances

end Report

end Glean
