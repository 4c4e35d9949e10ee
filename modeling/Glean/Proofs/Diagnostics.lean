import Glean.Proofs.Box.Equality
import Glean.Proofs.Extraction.Arguments
import Glean.Proofs.Extraction.Shapes
import Glean.Proofs.Grouping
import Mathlib.Data.List.Nodup

/-!
# Diagnostics

The leaves of a box are the boxes inside it about which nothing is known, depth first. Diagnostics
are given for an instance in pieces, according to its kind; together the pieces are the leaves of
its box, so each leaf of a report is reported once (`diagnostics_report_leaves`).

A group lists boxes under a property for the maps that an argument of a call may be, whereas a
diagnostic has the property only when the argument is a map itself. So the leaves of the boxes under
a property are those that are reported for it and those that are hidden in conditional arguments,
where they are reported for no property (`diagnostics_of_property`).
-/

namespace Glean

open Syntax

namespace Box

/-- The boxes directly inside a box, in order. -/
def inner : Box → List Box
  | literal .. | unresolvable .. => []
  | list items _ => items
  | map entries _ => entries.map Prod.snd
  | conditional whenTrue whenFalse _ _ => [whenTrue, whenFalse]

/-- The parts right inside a box are smaller than the box. -/
theorem sizeOf_inner {box part : Box} (inside : part ∈ box.inner) : sizeOf part < sizeOf box := by
  cases box with
  | literal | unresolvable => cases inside
  | list items =>
    have smaller : sizeOf part < sizeOf items := List.sizeOf_lt_of_mem inside
    simp only [list.sizeOf_spec]
    omega
  | map entries =>
    obtain ⟨⟨key, value⟩, listed, rfl⟩ := List.mem_map.1 inside
    have smaller : sizeOf (key, value) < sizeOf entries := List.sizeOf_lt_of_mem listed
    simp only [map.sizeOf_spec, Prod.mk.sizeOf_spec] at smaller ⊢
    omega
  | conditional whenTrue whenFalse =>
    simp only [conditional.sizeOf_spec]
    rcases List.mem_pair.1 inside with rfl | rfl <;> omega

/-- A box and the boxes inside it, depth first: each stands before those inside it. -/
def parts (box : Box) : List Box :=
  box :: box.inner.attach.flatMap fun part => parts part.1
termination_by sizeOf box
decreasing_by exact sizeOf_inner part.2

/-- The parts of a box are the box itself and the parts of what is inside it. -/
theorem parts_eq (box : Box) : box.parts = box :: box.inner.flatMap parts := by
  rw [parts]
  simp

/-- Why nothing is known about a box, and where that was found. -/
def leaf? : Box → Option (Reason × Option Reference)
  | unresolvable reason node => some (reason, node)
  | _ => none

/-- The leaves of a box about which nothing is known, depth first. -/
def leaves (box : Box) : List (Reason × Option Reference) := box.parts.filterMap leaf?

/-- A box that is no leaf has the leaves of what is inside it. -/
theorem leaves_of_inner {box : Box} (known : box.leaf? = none) :
    box.leaves = box.inner.flatMap leaves := by
  rw [leaves, parts_eq, List.filterMap_cons_none known, List.filterMap_flatMap]
  rfl

/-- The unresolvable parts of a box are its leaves. -/
theorem unresolvables_eq_leaves (box : Box) : box.unresolvables = box.leaves := by
  induction box with
  | literal => rw [leaves_of_inner rfl]; rfl
  | list items _ each =>
    rw [leaves_of_inner rfl, unresolvables, unresolvablesOfItems_eq]
    exact List.flatMap_congr each
  | map entries _ each =>
    rw [leaves_of_inner rfl, unresolvables, unresolvablesOfEntries_eq, inner, List.flatMap_map]
    exact List.flatMap_congr each
  | conditional whenTrue whenFalse _ _ yes no =>
    rw [leaves_of_inner rfl, unresolvables, yes, no]
    simp [inner]
  | unresolvable reason node =>
    rw [leaves, parts_eq]
    rfl

/-- The boxes under a property in the maps among the alternatives of a conditional. -/
def hidden (property : String) (box : Box) : List Box :=
  match box with
  | conditional .. => box.possible.flatMap (under property)
  | _ => []

/-- What the alternatives of a box have under a property is under it in the box itself, or hidden
in it. -/
theorem under_possible (property : String) (box : Box) :
    box.possible.flatMap (under property) = box.under property ++ box.hidden property := by
  cases box with
  | conditional => rfl
  | _ => simp [possible, hidden]

end Box

namespace Diagnostic

/-- Why nothing is known about the part that is reported, and where that was found. -/
def leaf (diagnostic : Diagnostic) : Reason × Option Reference :=
  (diagnostic.reason, diagnostic.node)

/-- Whether what is reported belongs to a property. -/
def isOf (property : String) (diagnostic : Diagnostic) : Bool :=
  diagnostic.property == some property

end Diagnostic

namespace Report

variable (name : String) (box : Box)

/-- A box is diagnosed with one diagnostic for every leaf, in order. -/
theorem diagnose_eq (property : Option String) :
    diagnose name property box =
      box.leaves.map fun (reason, node) => ⟨name, property, reason, node⟩ := by
  rw [diagnose, Box.unresolvables_eq_leaves]

/-- Whether a box is a map or not, its leaves are reported. -/
theorem leaf_diagnoseBox : (diagnoseBox name box).map Diagnostic.leaf = box.leaves := by
  have each (property : Option String) (part : Box) :
      (diagnose name property part).map Diagnostic.leaf = part.leaves := by
    rw [diagnose_eq, List.map_map]
    exact List.map_id _
  cases box with
  | map entries node =>
    change List.map _ (entries.flatMap fun entry => diagnose name (some entry.1) entry.2) = _
    rw [Box.leaves_of_inner rfl, Box.inner, List.map_flatMap, List.flatMap_map]
    exact List.flatMap_congr fun entry _ => each (some entry.1) entry.2
  | _ => exact each none _

/-- The diagnostics of a box are under the given name. -/
theorem name_of_diagnoseBox {diagnostic : Diagnostic}
    (reported : diagnostic ∈ diagnoseBox name box) : diagnostic.name = name := by
  have each : ∀ property (part : Box), diagnostic ∈ diagnose name property part →
      diagnostic.name = name := by
    intro property part listed
    obtain ⟨_, _, rfl⟩ := List.mem_map.1 listed
    rfl
  unfold diagnoseBox at reported
  split at reported
  · obtain ⟨entry, _, listed⟩ := List.mem_flatMap.1 reported
    exact each _ _ listed
  · exact each _ _ reported

/-- What is reported for a property are the leaves of the boxes that a map has under it. -/
theorem leaf_diagnoseBox_of_property (property : String) :
    ((diagnoseBox name box).filter (Diagnostic.isOf property)).map Diagnostic.leaf =
      (box.under property).flatMap Box.leaves := by
  have same (part : Box) : ((diagnose name (some property) part).filter
      (Diagnostic.isOf property)).map Diagnostic.leaf = part.leaves := by
    rw [diagnose_eq, List.filter_map, List.map_map]
    simp [Function.comp_def, Diagnostic.isOf, Diagnostic.leaf]
  have other {reportedFor : Option String} (apart : reportedFor ≠ some property) (part : Box) :
      (diagnose name reportedFor part).filter (Diagnostic.isOf property) = [] := by
    rw [diagnose_eq, List.filter_map]
    simp [Function.comp_def, Diagnostic.isOf, apart]
  cases box with
  | map entries node =>
    change List.map _ (List.filter _
      (entries.flatMap fun entry => diagnose name (some entry.1) entry.2)) =
        ((entries.filter fun entry => entry.1 == property).map Prod.snd).flatMap Box.leaves
    induction entries with
    | nil => rfl
    | cons entry rest ih =>
      rw [List.flatMap_cons, List.filter_append, List.map_append, ih]
      by_cases equal : entry.1 = property
      · have kept : (entry.1 == property) = true := beq_iff_eq.2 equal
        rw [List.filter_cons, if_pos kept, equal, same]
        rfl
      · have apart : some entry.1 ≠ some property := fun found => equal (Option.some_inj.1 found)
        have dropped : ¬(entry.1 == property) = true := fun found => equal (eq_of_beq found)
        rw [List.filter_cons, if_neg dropped, other apart]
        rfl
  | _ => exact congrArg (List.map Diagnostic.leaf) (other (Option.some_ne_none property).symm _)

end Report

namespace Instance

variable {inst : Instance}

/-- The pieces in which an instance is reported have together the leaves of its box. -/
theorem leaves_reported (shaped : inst.Shaped) :
    inst.reported.flatMap Box.leaves = inst.box.leaves := by
  cases kind : inst.kind with
  | element | template => simp [reported, kind]
  | call =>
    simp only [Shaped, kind] at shaped
    obtain ⟨items, node, same⟩ := shaped
    have known : (Box.list items node).leaf? = none := rfl
    simp only [reported, kind, same]
    rw [Box.leaves_of_inner known]
    rfl

/-- The boxes under a property in maps that an argument of a call may be, but need not be. -/
def hidden (property : String) (inst : Instance) : List Box :=
  match inst.kind with
  | .call => (inst.box.items?.getD []).flatMap (Box.hidden property)
  | .element | .template => []

/-- The boxes that an instance has for a property stand in the maps that are reported for the
property, or they are hidden. -/
theorem under_perm (shaped : inst.Shaped) (property : String) :
    (inst.under property).Perm
      (inst.reported.flatMap (Box.under property) ++ inst.hidden property) := by
  cases kind : inst.kind with
  | element => simp [under, reported, hidden, kind]
  | call =>
    simp only [under, reported, hidden, kind, Box.under_possible]
    exact (List.flatMap_append_perm ..).symm
  | template =>
    -- A template is no map, so it has nothing under a property.
    simp only [Shaped, kind] at shaped
    have nothing : inst.box.under property = [] := by
      cases box : inst.box with
      | map =>
        rw [box] at shaped
        cases shaped
      | _ => rfl
    simp [under, reported, hidden, kind, nothing]

end Instance

namespace Group

/-- What a group reports under a name. -/
def diagnostics (name : String) (group : Group) : List Diagnostic :=
  group.instances.flatMap fun inst => inst.reported.flatMap (Report.diagnoseBox name)

/-- The leaves of the boxes that a group lists under a property. -/
def leavesUnder (property : String) (group : Group) : List (Reason × Option Reference) :=
  ((Entries.get? group.properties property).getD []).flatMap Box.leaves

/-- The leaves under a property in maps that an argument of a call may be, but need not be. -/
def hiddenLeaves (property : String) (group : Group) : List (Reason × Option Reference) :=
  (group.instances.flatMap (Instance.hidden property)).flatMap Box.leaves

/-- The leaves that are diagnosed for a group are those of its instances, in order. -/
theorem leaf_diagnostics (name : String) {group : Group}
    (shaped : ∀ inst ∈ group.instances, inst.Shaped) :
    (group.diagnostics name).map Diagnostic.leaf =
      group.instances.flatMap fun inst => inst.box.leaves := by
  rw [diagnostics, List.map_flatMap]
  refine List.flatMap_congr fun inst listed => ?_
  rw [List.map_flatMap, ← Instance.leaves_reported (shaped inst listed)]
  exact List.flatMap_congr fun box _ => Report.leaf_diagnoseBox name box

/-- The diagnostics of a group are under its name. -/
theorem name_of_diagnostics {name : String} {group : Group} {diagnostic : Diagnostic}
    (reported : diagnostic ∈ group.diagnostics name) : diagnostic.name = name := by
  obtain ⟨inst, _, listed⟩ := List.mem_flatMap.1 reported
  obtain ⟨box, _, here⟩ := List.mem_flatMap.1 listed
  exact Report.name_of_diagnoseBox name box here

/-- What instances have under a property is reported for it or hidden. -/
theorem leaves_perm (name : String) {group : Group}
    (shaped : ∀ inst ∈ group.instances, inst.Shaped) (property : String) :
    ((group.instances.flatMap (Instance.under property)).flatMap Box.leaves).Perm
      (((group.diagnostics name).filter (Diagnostic.isOf property)).map Diagnostic.leaf ++
        group.hiddenLeaves property) := by
  have reported : ((group.diagnostics name).filter (Diagnostic.isOf property)).map
      Diagnostic.leaf = (group.instances.flatMap fun inst =>
        inst.reported.flatMap (Box.under property)).flatMap Box.leaves := by
    rw [diagnostics, List.filter_flatMap, List.map_flatMap, List.flatMap_assoc]
    refine List.flatMap_congr fun inst _ => ?_
    rw [List.filter_flatMap, List.map_flatMap, List.flatMap_assoc]
    exact List.flatMap_congr fun box _ => Report.leaf_diagnoseBox_of_property name box property
  rw [reported, hiddenLeaves, ← List.flatMap_append]
  have split : (group.instances.flatMap (Instance.under property)).Perm
      (group.instances.flatMap fun inst =>
        inst.reported.flatMap (Box.under property) ++ inst.hidden property) :=
    List.Perm.flatMap (List.Perm.refl _) fun inst listed =>
      Instance.under_perm (shaped inst listed) property
  exact (split.trans (List.flatMap_append_perm ..).symm).flatMap_right _

end Group

namespace Report

/-- What is reported under the name of a group is what the group reports, as no other group has its
name. -/
theorem filter_diagnostics {report : Report} (apart : (Entries.keys report.groups).Nodup)
    {name : String} {group : Group} (listed : (name, group) ∈ report.groups) :
    report.diagnostics.filter (fun diagnostic => diagnostic.name == name) =
      group.diagnostics name := by
  obtain ⟨before, after, split⟩ := List.append_of_mem listed
  rw [Entries.keys, split, List.map_append, List.map_cons] at apart
  have alone : name ∉ before.map Prod.fst ++ after.map Prod.fst :=
    (List.nodup_cons.1 (List.nodup_middle.1 apart)).1
  have others (entries : List (String × Group)) (absent : name ∉ entries.map Prod.fst) :
      (entries.flatMap fun entry => entry.2.diagnostics entry.1).filter
        (fun diagnostic => diagnostic.name == name) = [] := by
    refine List.filter_eq_nil_iff.2 fun diagnostic reported same => absent ?_
    obtain ⟨entry, held, here⟩ := List.mem_flatMap.1 reported
    have named : diagnostic.name = entry.1 := Group.name_of_diagnostics here
    exact List.mem_map.2 ⟨entry, held, named.symm.trans (eq_of_beq same)⟩
  have own : (group.diagnostics name).filter (fun diagnostic => diagnostic.name == name) =
      group.diagnostics name :=
    List.filter_eq_self.2 fun _ reported => beq_iff_eq.2 (Group.name_of_diagnostics reported)
  change List.filter _ (report.groups.flatMap fun entry => entry.2.diagnostics entry.1) = _
  rw [split, List.flatMap_append, List.flatMap_cons, List.filter_append, List.filter_append,
    others before fun held => alone (List.mem_append_left _ held),
    others after fun held => alone (List.mem_append_right _ held), own, List.nil_append,
    List.append_nil]

/-- A group of a report made of instances lists their boxes, and has no other instances. -/
theorem leavesUnder_of_mem {instances : List Instance} {name : String} {group : Group}
    (listed : (name, group) ∈ (ofList instances).groups) :
    (∀ inst ∈ group.instances, inst ∈ instances) ∧ ∀ property, group.leavesUnder property =
      (group.instances.flatMap (Instance.under property)).flatMap Box.leaves := by
  obtain ⟨first, rest, all, rfl⟩ := group_of_mem listed
  constructor
  · intro inst among
    rw [Group.instances_ofList, ← all] at among
    exact List.mem_of_mem_filter among
  · intro property
    rw [Group.instances_ofList, Group.leavesUnder, Group.get?_properties_ofList]
    split
    · rename_i empty
      rw [List.isEmpty_iff.1 empty]
      rfl
    · rfl

end Report

/-- Diagnostics are the leaves of the boxes of all instances, group by group and instance by
instance, each leaf under the name of its group. -/
theorem diagnostics_report_leaves {setting : Setting} {matchers : Matchers} {path : Path}
    {report : Report} (extracted : (Extraction.extract setting matchers path).1 = .ok report) :
    report.diagnostics.map (fun found => (found.name, found.reason, found.node)) =
      report.groups.flatMap fun (name, group) => group.instances.flatMap fun inst =>
        inst.box.leaves.map fun (reason, node) => (name, reason, node) := by
  obtain ⟨instances, rfl, shaped⟩ :=
    Extraction.exists_instances_of_extract Extraction.shaped_ofNode extracted
  change List.map _ ((Report.ofList instances).groups.flatMap
    fun entry => entry.2.diagnostics entry.1) = _
  rw [List.map_flatMap]
  refine List.flatMap_congr fun (name, group) listed => ?_
  have among := (Report.leavesUnder_of_mem listed).1
  have leaves := group.leaf_diagnostics name fun inst held => shaped inst (among inst held)
  have named : (group.diagnostics name).map (fun found => (found.name, found.reason, found.node)) =
      ((group.diagnostics name).map Diagnostic.leaf).map fun leaf => (name, leaf) := by
    rw [List.map_map]
    exact List.map_congr_left fun found held =>
      congrArg (·, found.leaf) (Group.name_of_diagnostics held)
  rw [named, leaves, List.map_flatMap]

/-- `{ a: x }` from a byte on. -/
def unknownObject (start : Nat) : Expr :=
  .object ⟨start, start + 8⟩
    [.keyed ⟨start + 2, start + 6⟩ (.name "a") (.ident ⟨start + 5, start + 6⟩ ⟨"x", 1⟩)]

/-- `c ? { a: x } : { a: "y" }` -/
def choiceOfObjects : Expr :=
  .conditional ⟨3, 28⟩ (.ident ⟨3, 4⟩ ⟨"c", 1⟩) (unknownObject 7)
    (.object ⟨18, 28⟩ [.keyed ⟨20, 26⟩ (.name "a") (.literal ⟨23, 26⟩ (.string "y"))])

/-- `f(c ? { a: x } : { a: "y" })` has one leaf, which is reported. -/
theorem diagnostics_report_leaves_choice :
    let file := callFile (callOf [.single choiceOfObjects] 29)
    let setting : Setting := { project := Project.insert {} file }
    let matchers : Matchers := { functions := some ({} : NameRules).functions }
    ∃ report, (Extraction.extract setting matchers file.path).1 = .ok report ∧
      report.diagnostics.map (fun found => (found.name, found.reason, found.node)) =
        [("f", .unbound, some ⟨file.path, ⟨12, 13⟩, .expr⟩)] ∧
      (report.groups.flatMap fun (name, group) => group.instances.flatMap fun inst =>
        inst.box.leaves.map fun (reason, node) => (name, reason, node)) =
          [("f", .unbound, some ⟨file.path, ⟨12, 13⟩, .expr⟩)] := by
  intro file setting matchers
  have found : ((Extraction.extract setting matchers file.path).1.toOption.map fun report =>
      report.diagnostics.map fun found => (found.name, found.reason, found.node)) =
        some [("f", .unbound, some ⟨file.path, ⟨12, 13⟩, .expr⟩)] := by
    decide +kernel
  cases extracted : (Extraction.extract setting matchers file.path).1 with
  | error failure =>
    rw [extracted] at found
    cases found
  | ok report =>
    rw [extracted] at found
    have reported := Option.some_inj.1 found
    exact ⟨report, rfl, reported, (diagnostics_report_leaves extracted).symm.trans reported⟩

/-- The leaves of the boxes that a group lists under a property are those that diagnostics report
for the property and those that are hidden in arguments that may be maps. So both agree exactly when
none is hidden. -/
theorem diagnostics_of_property {setting : Setting} {matchers : Matchers} {path : Path}
    {report : Report} (extracted : (Extraction.extract setting matchers path).1 = .ok report)
    {name : String} {group : Group} (listed : (name, group) ∈ report.groups) (property : String) :
    let reported := (report.diagnostics.filter fun found =>
      found.name == name && found.property == some property).map Diagnostic.leaf
    (group.leavesUnder property).Perm (reported ++ group.hiddenLeaves property) ∧
      ((group.leavesUnder property).Perm reported ↔ group.hiddenLeaves property = []) := by
  intro reported
  obtain ⟨instances, rfl, shaped⟩ :=
    Extraction.exists_instances_of_extract Extraction.shaped_ofNode extracted
  obtain ⟨among, leaves⟩ := Report.leavesUnder_of_mem listed
  have own : reported =
      ((group.diagnostics name).filter (Diagnostic.isOf property)).map Diagnostic.leaf := by
    rw [← Report.filter_diagnostics (Report.nodup_groups instances) listed, List.filter_filter]
    simp only [reported, Diagnostic.isOf, Bool.and_comm]
  have all : (group.leavesUnder property).Perm (reported ++ group.hiddenLeaves property) := by
    rw [leaves, own]
    exact group.leaves_perm name (fun inst held => shaped inst (among inst held)) property
  refine ⟨all, fun same => ?_, fun none => ?_⟩
  · have longer := all.length_eq
    rw [List.length_append, same.length_eq] at longer
    exact List.eq_nil_of_length_eq_zero (by omega)
  · rwa [none, List.append_nil] at all

/-- `f({ a: x })` reports the leaf that is listed under `a`. -/
theorem diagnostics_of_property_map :
    let file := callFile (callOf [.single (unknownObject 3)] 12)
    let setting : Setting := { project := Project.insert {} file }
    let matchers : Matchers := { functions := some ({} : NameRules).functions }
    ∃ report, (Extraction.extract setting matchers file.path).1 = .ok report ∧
      ∃ group, ("f", group) ∈ report.groups ∧
        group.leavesUnder "a" = [(.unbound, some ⟨file.path, ⟨8, 9⟩, .expr⟩)] ∧
        (group.leavesUnder "a").Perm ((report.diagnostics.filter fun found =>
          found.name == "f" && found.property == some "a").map Diagnostic.leaf) := by
  intro file setting matchers
  have found : ((Extraction.extract setting matchers file.path).1.toOption.any fun report =>
      ∃ entry ∈ report.groups, entry.1 = "f" ∧ entry.2.hiddenLeaves "a" = [] ∧
        entry.2.leavesUnder "a" = [(.unbound, some ⟨file.path, ⟨8, 9⟩, .expr⟩)]) = true := by
    decide +kernel
  cases extracted : (Extraction.extract setting matchers file.path).1 with
  | error failure =>
    rw [extracted] at found
    cases found
  | ok report =>
    rw [extracted] at found
    obtain ⟨⟨name, group⟩, listed, rfl, none, leaves⟩ := of_decide_eq_true found
    exact ⟨report, rfl, group, listed, leaves,
      (diagnostics_of_property extracted listed "a").2.2 none⟩

/-- `f(c ? { a: x } : { a: "y" })` lists a leaf under `a` that is reported for no property. -/
theorem not_diagnostics_of_property :
    let file := callFile (callOf [.single choiceOfObjects] 29)
    let setting : Setting := { project := Project.insert {} file }
    let matchers : Matchers := { functions := some ({} : NameRules).functions }
    let leaf : Reason × Option Reference := (.unbound, some ⟨file.path, ⟨12, 13⟩, .expr⟩)
    ∃ report, (Extraction.extract setting matchers file.path).1 = .ok report ∧
      report.diagnostics.map (fun found => (found.name, found.property, found.leaf)) =
        [("f", none, leaf)] ∧
      ∃ group, ("f", group) ∈ report.groups ∧ group.leavesUnder "a" = [leaf] ∧
        ¬(group.leavesUnder "a").Perm ((report.diagnostics.filter fun found =>
          found.name == "f" && found.property == some "a").map Diagnostic.leaf) := by
  intro file setting matchers leaf
  have found : ((Extraction.extract setting matchers file.path).1.toOption.any fun report =>
      report.diagnostics.map (fun found => (found.name, found.property, found.leaf)) =
        [("f", none, leaf)] ∧
      ∃ entry ∈ report.groups, entry.1 = "f" ∧ entry.2.leavesUnder "a" = [leaf] ∧
        ((report.diagnostics.filter fun found =>
          found.name == "f" && found.property == some "a").map Diagnostic.leaf) = []) = true := by
    decide +kernel
  cases extracted : (Extraction.extract setting matchers file.path).1 with
  | error failure =>
    rw [extracted] at found
    cases found
  | ok report =>
    rw [extracted] at found
    obtain ⟨reported, ⟨name, group⟩, listed, rfl, leaves, none⟩ := of_decide_eq_true found
    refine ⟨report, rfl, reported, group, listed, leaves, fun same => ?_⟩
    rw [leaves, none] at same
    exact absurd same.length_eq (by decide)

end Glean
