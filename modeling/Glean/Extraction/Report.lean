import Glean.Box.Alternatives

/-!
# Reports

A report holds what was extracted from one file, grouped by name in the order in which the names
came first. A group also lists, for each property, every box seen for it.
-/

namespace Glean

/-- What an instance was found as. -/
inductive InstanceKind where
  | element
  | call
  | template
deriving DecidableEq

/-- The name of a kind of instance. -/
def InstanceKind.name : InstanceKind → String
  | element => "jsx-element"
  | call => "call-expression"
  | template => "tagged-template"

/-- What a group holds. -/
inductive GroupKind where
  | component
  /-- Calls and templates with a tag. -/
  | function
deriving DecidableEq

/-- The name of a kind of group. -/
def GroupKind.name : GroupKind → String
  | component => "component"
  | function => "function"

/-- The kind of group that an instance starts. -/
def InstanceKind.group : InstanceKind → GroupKind
  | element => .component
  | call | template => .function

/-- One thing that was extracted. -/
structure Instance where
  /-- Its name. -/
  name : String
  /-- What it was found as. -/
  kind : InstanceKind
  /-- Where it was found. -/
  node : Reference
  /-- The properties of an element, the arguments of a call, or the text of a template. -/
  box : Box

namespace Instance

/-- The boxes that are looked at for properties: those of an element itself and the arguments of a
call, with every value that they may take. -/
def indexed (inst : Instance) : List Box :=
  match inst.kind with
  | .element => [inst.box]
  | .call => (inst.box.items?.getD []).flatMap Box.possible
  | .template => []

/-- Properties with their boxes, in order. -/
def properties (inst : Instance) : List (String × Box) :=
  inst.indexed.flatMap fun box => box.entries?.getD []

/-- The boxes whose unresolvable parts are reported one by one. -/
def reported (inst : Instance) : List Box :=
  match inst.kind with
  | .call => inst.box.items?.getD []
  | .element | .template => [inst.box]

end Instance

/-- The instances of one name. -/
structure Group where
  /-- What the first instance was found as. -/
  kind : GroupKind
  /-- The instances in order. -/
  instances : List Instance := []
  /-- Every box seen for a property, in order. -/
  properties : Entries String (List Box) := []

/-- Adds an instance to a group. -/
def Group.push (group : Group) (inst : Instance) : Group :=
  { group with
    instances := group.instances ++ [inst]
    properties := inst.properties.foldl
      (fun properties (name, box) =>
        Entries.update properties name fun boxes => boxes.getD [] ++ [box])
      group.properties }

/-- A part of an instance about which nothing is known. -/
structure Diagnostic where
  /-- The name of the instance. -/
  name : String
  /-- The property that the part belongs to, if it belongs to one. -/
  property : Option String
  /-- Why nothing is known. -/
  reason : Reason
  /-- Where that was found. -/
  node : Option Reference

/-- What was extracted from one file. -/
structure Report where
  /-- The groups by name. -/
  groups : Entries String Group := []

namespace Report

/-- Adds an instance to its group, which it starts if there is none. -/
def push (report : Report) (inst : Instance) : Report :=
  { groups := Entries.update report.groups inst.name fun group =>
      (group.getD { kind := inst.kind.group }).push inst }

/-- The report of a list of instances. -/
def ofList (instances : List Instance) : Report := instances.foldl push {}

/-- The unresolvable parts of a box, reported under a name and a property. -/
def diagnose (name : String) (property : Option String) (box : Box) : List Diagnostic :=
  box.unresolvables.map fun (reason, node) => ⟨name, property, reason, node⟩

/-- The unresolvable parts of a box; those of a map are reported under its keys. -/
def diagnoseBox (name : String) (box : Box) : List Diagnostic :=
  match box.entries? with
  | some entries => entries.flatMap fun (property, value) => diagnose name (some property) value
  | none => diagnose name none box

/-- Every part of the report about which nothing is known. -/
def diagnostics (report : Report) : List Diagnostic :=
  report.groups.flatMap fun (name, group) =>
    group.instances.flatMap fun inst => inst.reported.flatMap (diagnoseBox name)

end Report

end Glean
