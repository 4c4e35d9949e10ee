import Mathlib.Data.List.Induction
import Glean.Proofs.Entries
import Glean.Proofs.Failures

/-!
# Groups of instances

A report is made of instances one by one. Nothing gets lost or doubled on the way: the groups are
those of the distinct names, each holds the instances of its name, and under a property it lists the
boxes that these instances have for it (`Report.ofList_aggregates`).

Groups go by names alone, and the first instance decides on the kind of its group. So the instances
of a group are of its kind when those of its name are all of one kind; in an extraction this holds
when no name is taken both as that of an element and as that of a function (`groups_of_one_kind`).
-/

namespace Glean

open Syntax

namespace Entries

variable {κ α ι : Type} [BEq κ] [LawfulBEq κ]

section Gathering

variable (key : ι → κ) (change : Option α → ι → α)

omit [LawfulBEq κ] in
/-- Each item of a list changes what is under its key. -/
def gather (entries : Entries κ α) (items : List ι) : Entries κ α :=
  items.foldl (fun entries item => update entries (key item) fun held => change held item) entries

/-- Items bring their keys in the order in which the keys come first. -/
theorem keys_gather (items : List ι) :
    keys (gather key change [] items) = (items.map key).eraseDups := by
  -- The last item decides whether one more key is added.
  induction items using List.reverseRecOn with
  | nil => rfl
  | append_singleton items item ih =>
    have last : gather key change [] (items ++ [item]) =
        update (gather key change [] items) (key item) fun held => change held item := by
      simp [gather]
    have held : contains (gather key change [] items) (key item) = true ↔
        key item ∈ items.map key := by
      rw [contains_iff, ih, List.mem_eraseDups]
    rw [last, keys_update, List.map_append, List.map_singleton, List.eraseDups_append, ih]
    by_cases known : key item ∈ items.map key
    · have removed : [key item].removeAll (items.map key) = [] := by
        simp only [List.removeAll, List.filter_cons, List.elem_iff.2 known, Bool.not_true,
          Bool.false_eq_true, if_false, List.filter_nil]
      rw [if_pos (held.2 known), removed, List.eraseDups_nil, List.append_nil]
    · have new : (items.map key).elem (key item) = false :=
        Bool.eq_false_iff.2 fun found => known (List.elem_iff.1 found)
      have kept : [key item].removeAll (items.map key) = [key item] := by
        simp only [List.removeAll, List.filter_cons, new, Bool.not_false, if_true, List.filter_nil]
      rw [if_neg (held.not.2 known), kept]
      rfl

/-- Gathered items have keys that are apart. -/
theorem nodup_gather (items : List ι) : (keys (gather key change [] items)).Nodup := by
  have kept : ∀ entries : Entries κ α, (keys entries).Nodup →
      (keys (gather key change entries items)).Nodup := by
    induction items with
    | nil => exact fun _ apart => apart
    | cons item rest ih => exact fun entries apart => ih _ (nodup_update apart ..)
  exact kept [] List.nodup_nil

/-- What is under a key is changed by the items with that key, one after the other. -/
theorem get?_gather (entries : Entries κ α) (items : List ι) (asked : κ) :
    get? (gather key change entries items) asked =
      (items.filter fun item => key item == asked).foldl
        (fun held item => some (change held item)) (get? entries asked) := by
  induction items generalizing entries with
  | nil => rfl
  | cons item rest ih =>
    have others := ih (update entries (key item) fun held => change held item)
    rw [get?_update] at others
    by_cases same : key item = asked
    · subst same
      simpa [gather] using others
    · simpa [gather, same] using others

end Gathering

/-- Values that are listed under their keys. -/
theorem get?_gather_append (pairs : List (κ × α)) (asked : κ) :
    let listed := (pairs.filter fun pair => pair.1 == asked).map Prod.snd
    get? (gather Prod.fst (fun held pair => held.getD [] ++ [pair.2]) [] pairs) asked =
      if listed.isEmpty then none else some listed := by
  have appended : ∀ (pairs : List (κ × α)) (held : List α),
      pairs.foldl (fun held pair => some (held.getD [] ++ [pair.2])) (some held) =
        some (held ++ pairs.map Prod.snd) := by
    intro pairs
    induction pairs with
    | nil => simp
    | cons pair rest ih => simp [ih]
  intro listed
  rw [get?_gather]
  change List.foldl _ none (pairs.filter fun pair => pair.1 == asked) = _
  cases same : pairs.filter fun pair => pair.1 == asked with
  | nil => simp [listed, same]
  | cons pair rest =>
    rw [List.foldl_cons, Option.getD_none, List.nil_append, appended]
    simp [listed, same]

end Entries

/-- The boxes that a map has under a property. -/
def Box.under (property : String) (box : Box) : List Box :=
  ((box.entries?.getD []).filter fun entry => entry.1 == property).map Prod.snd

/-- The boxes that an instance has for a property: those in the map of an element, and those in each
map that an argument of a call may be. A template has none. -/
def Instance.under (property : String) (inst : Instance) : List Box :=
  match inst.kind with
  | .element => inst.box.under property
  | .call => (inst.box.items?.getD []).flatMap fun argument =>
      argument.possible.flatMap (Box.under property)
  | .template => []

/-- What an instance has under a property are the values of the entries with that key. -/
theorem Instance.under_eq (property : String) (inst : Instance) :
    inst.under property =
      (inst.properties.filter fun entry => entry.1 == property).map Prod.snd := by
  unfold under properties indexed
  cases inst.kind with
  | element => simp [Box.under]
  | call =>
    simp only [List.filter_flatMap, List.map_flatMap, List.flatMap_assoc]
    rfl
  | template => rfl

namespace Group

/-- What is left of a group when a list of instances is added to it. -/
theorem foldl_push (group : Group) (instances : List Instance) :
    instances.foldl push group =
      { kind := group.kind
        instances := group.instances ++ instances
        properties := Entries.gather Prod.fst (fun held pair => held.getD [] ++ [pair.2])
          group.properties (instances.flatMap Instance.properties) } := by
  induction instances generalizing group with
  | nil => simp [Entries.gather]
  | cons inst rest ih =>
    rw [List.foldl_cons, ih]
    simp [push, Entries.gather]

/-- The group of a list of instances, the first of which has a given kind. -/
def ofList (kind : GroupKind) (instances : List Instance) : Group := instances.foldl push { kind }

/-- A group of a list has the given kind. -/
theorem kind_ofList (kind : GroupKind) (instances : List Instance) :
    (ofList kind instances).kind = kind := by
  rw [ofList, foldl_push]

/-- A group of a list has the instances of the list. -/
theorem instances_ofList (kind : GroupKind) (instances : List Instance) :
    (ofList kind instances).instances = instances := by
  rw [ofList, foldl_push]
  exact List.nil_append instances

/-- A group lists the boxes that its instances have for a property. -/
theorem get?_properties_ofList (kind : GroupKind) (instances : List Instance) (property : String) :
    let boxes := instances.flatMap (Instance.under property)
    Entries.get? (ofList kind instances).properties property =
      if boxes.isEmpty then none else some boxes := by
  intro boxes
  have listed : boxes = ((instances.flatMap Instance.properties).filter
      fun entry => entry.1 == property).map Prod.snd := by
    rw [List.filter_flatMap, List.map_flatMap]
    exact List.flatMap_congr fun inst _ => inst.under_eq property
  rw [ofList, foldl_push, listed]
  exact Entries.get?_gather_append ..

end Group

namespace Report

/-- The groups of a report are gathered from its instances by their names. -/
theorem groups_ofList (instances : List Instance) :
    (ofList instances).groups = Entries.gather Instance.name
      (fun group inst => (group.getD { kind := inst.kind.group }).push inst) [] instances :=
  (List.foldl_hom Report.groups fun _ _ => rfl).symm

/-- The groups of a report have names that are apart. -/
theorem nodup_groups (instances : List Instance) :
    (Entries.keys (ofList instances).groups).Nodup := by
  rw [groups_ofList]
  exact Entries.nodup_gather ..

/-- The group of a name is made of the instances of the name, the first of which gives it its
kind. -/
theorem group_of_mem {instances : List Instance} {name : String} {group : Group}
    (listed : (name, group) ∈ (ofList instances).groups) :
    ∃ first rest, instances.filter (fun inst => inst.name == name) = first :: rest ∧
      group = Group.ofList first.kind.group (first :: rest) := by
  have pushed : ∀ (instances : List Instance) (group : Group),
      instances.foldl (fun group inst =>
        some ((group.getD { kind := inst.kind.group }).push inst)) (some group) =
          some (instances.foldl Group.push group) := by
    intro instances
    induction instances with
    | nil => exact fun _ => rfl
    | cons inst rest ih => exact fun group => ih (group.push inst)
  have found := Entries.get?_of_mem (nodup_groups instances) listed
  rw [groups_ofList, Entries.get?_gather] at found
  change List.foldl _ none (instances.filter fun inst => inst.name == name) = _ at found
  cases same : instances.filter fun inst => inst.name == name with
  | nil =>
    rw [same] at found
    cases found
  | cons first rest =>
    rw [same, List.foldl_cons, Option.getD_none, pushed] at found
    exact ⟨first, rest, rfl, (Option.some_inj.1 found).symm⟩

/-- A report has a group for each name of its instances, in the order in which the names come first.
The group holds the instances of the name in their order, and it lists for a property the boxes that
these instances have for it, in their order; a property without boxes is not listed. -/
theorem ofList_aggregates (instances : List Instance) :
    let groups := (ofList instances).groups
    Entries.keys groups = (instances.map Instance.name).eraseDups ∧
      ∀ entry ∈ groups,
        entry.2.instances = instances.filter (fun inst => inst.name == entry.1) ∧
        (Entries.keys entry.2.properties).Nodup ∧
        ∀ property,
          let boxes := entry.2.instances.flatMap (Instance.under property)
          Entries.get? entry.2.properties property =
            if boxes.isEmpty then none else some boxes := by
  intro groups
  constructor
  · rw [show groups = _ from groups_ofList instances]
    exact Entries.keys_gather ..
  · rintro ⟨name, group⟩ listed
    obtain ⟨first, rest, all, rfl⟩ := group_of_mem listed
    have held : (Group.ofList first.kind.group (first :: rest)).instances = first :: rest := by
      rw [Group.ofList, Group.foldl_push]
      rfl
    refine ⟨held.trans all.symm, ?_, fun property => ?_⟩
    · rw [Group.ofList, Group.foldl_push]
      exact Entries.nodup_gather ..
    · rw [held]
      exact Group.get?_properties_ofList ..

end Report

/-- The kind of the instances whose properties a group of a kind lists. -/
def GroupKind.listing : GroupKind → InstanceKind
  | component => .element
  | function => .call

/-- All instances are of the kind of the group, and it lists the properties of elements only or of
calls only. -/
structure Group.Uniform (group : Group) : Prop where
  instances : ∀ inst ∈ group.instances, inst.kind.group = group.kind
  properties : ∀ property boxes, Entries.get? group.properties property = some boxes →
    ∀ box ∈ boxes, ∃ inst ∈ group.instances,
      inst.kind = group.kind.listing ∧ box ∈ inst.under property

/-- Templates have no properties. -/
theorem Instance.kind_of_under {inst : Instance} {property : String} {box : Box}
    (held : box ∈ inst.under property) : inst.kind = inst.kind.group.listing := by
  unfold under at held
  cases kind : inst.kind with
  | element => rfl
  | call => rfl
  | template =>
    rw [kind] at held
    cases held

/-- A group whose instances are of one kind is uniform. -/
theorem Group.uniform_ofList {kind : GroupKind} {instances : List Instance}
    (same : ∀ inst ∈ instances, inst.kind.group = kind) : (ofList kind instances).Uniform := by
  constructor
  · rw [kind_ofList, instances_ofList]
    exact same
  · intro property boxes found box listed
    rw [get?_properties_ofList] at found
    rw [kind_ofList, instances_ofList]
    split at found
    · cases found
    · cases found
      obtain ⟨inst, among, seen⟩ := List.mem_flatMap.1 listed
      have own : inst.kind = inst.kind.group.listing := Instance.kind_of_under seen
      rw [same inst among] at own
      exact ⟨inst, among, own, seen⟩

namespace Report

/-- A group has the kind of its first instance, and it is uniform when the instances of its name are
all of one kind. -/
theorem kind_of_mem {instances : List Instance} {entry : String × Group}
    (listed : entry ∈ (ofList instances).groups) :
    (∃ first rest, entry.2.instances = first :: rest ∧ entry.2.kind = first.kind.group) ∧
      ((∀ inst ∈ instances, ∀ other ∈ instances, inst.name = entry.1 → other.name = entry.1 →
        inst.kind.group = other.kind.group) → entry.2.Uniform) := by
  obtain ⟨name, group⟩ := entry
  obtain ⟨first, rest, all, rfl⟩ := group_of_mem listed
  have named : ∀ inst ∈ first :: rest, inst ∈ instances ∧ inst.name = name := by
    intro inst among
    rw [← all] at among
    obtain ⟨among, same⟩ := List.mem_filter.1 among
    exact ⟨among, eq_of_beq same⟩
  refine ⟨⟨first, rest, Group.instances_ofList .., Group.kind_ofList ..⟩,
    fun alike => Group.uniform_ofList fun inst among => ?_⟩
  · obtain ⟨here, same⟩ := named inst among
    obtain ⟨firstHere, firstSame⟩ := named first (List.mem_cons_self ..)
    exact alike inst here first firstHere same firstSame

end Report

namespace Matchers

/-- An instance of a kind may be taken under a name. -/
def Takes (matchers : Matchers) (kind : InstanceKind) (name : String) : Prop :=
  match kind with
  | .element => ∃ opening : Opening, opening.name.text = name ∧
      matchers.answer? (.tag ⟨name, opening, matchers.factory.any fun isFactory =>
        isFactory name opening⟩) = some (.ok true)
  | .call => ∃ call : Call, call.callee.bind Expr.dotted? = some name ∧
      matchers.answer? (.call ⟨name, call⟩) = some (.ok true)
  | .template => ∃ tagged : TaggedTemplate, tagged.tag.dotted? = some name ∧
      matchers.answer? (.template ⟨name, tagged⟩) = some (.ok true)

/-- No name is taken both as that of an element and as that of a call or template. -/
def SetsApart (matchers : Matchers) : Prop :=
  ∀ name kind other, matchers.Takes kind name → matchers.Takes other name →
    kind.group = other.group

end Matchers

namespace Extraction

/-- What is found at a node was taken under its name. -/
theorem takes_ofNode {setting : Setting} {matchers : Matchers} (file : Document) (node : Node) :
    ending.Holds (fun found : Option Instance => ∀ inst ∈ found, matchers.Takes inst.kind inst.name)
      (ofNode setting matchers file node) := by
  have nothing : ∀ inst ∈ (none : Option Instance), matchers.Takes inst.kind inst.name := nofun
  unfold ofNode
  split
  · rename_i opening
    split
    · rename_i matcher given
      refine ending_asked nothing fun answered => ?_
      refine ending.bind (ending_any _) fun _ _ => ending.bind (ending_any _) fun _ _ => ?_
      refine ending.pure fun inst same => ?_
      obtain rfl := Option.some_inj.1 same
      exact ⟨opening, rfl, by simpa [Matchers.answer?, given] using answered⟩
    · exact ending.pure nothing
  · rename_i span callee arguments
    split
    · rename_i matcher given
      unfold call
      split
      · exact ending.pure nothing
      · rename_i name named
        refine ending_asked nothing fun answered => ?_
        refine ending.bind (ending_any _) fun _ _ => ending.pure fun inst same => ?_
        obtain rfl := Option.some_inj.1 same
        exact ⟨⟨span, callee, arguments⟩, named, by simpa [Matchers.answer?, given] using answered⟩
    · exact ending.pure nothing
  · rename_i span tag quasis interpolations
    split
    · rename_i matcher given
      unfold template
      split
      · exact ending.pure nothing
      · rename_i name named
        refine ending_asked nothing fun answered => ?_
        refine ending.bind (ending_any _) fun _ _ => ending.pure fun inst same => ?_
        obtain rfl := Option.some_inj.1 same
        refine ⟨⟨span, tag, quasis, interpolations⟩, named, ?_⟩
        simpa [Matchers.answer?, given] using answered
    · exact ending.pure nothing
  · exact ending.pure nothing

/-- The report of a file is made of instances that were taken under their names. -/
theorem takes_extract {setting : Setting} {matchers : Matchers} {path : Path} {report : Report}
    (extracted : (extract setting matchers path).1 = .ok report) :
    ∃ instances, report = .ofList instances ∧
      ∀ inst ∈ instances, matchers.Takes inst.kind inst.name :=
  exists_instances_of_extract takes_ofNode extracted

end Extraction

/-- The kind of a group is that of its first instance, and where the instances of a name are all of
one kind, their group is of that kind and lists no properties of others. This is so for all groups
of an extraction that takes no name both as that of an element and as that of a call or template. -/
theorem groups_of_one_kind :
    (∀ instances, ∀ entry ∈ (Report.ofList instances).groups,
      (∃ first rest, entry.2.instances = first :: rest ∧ entry.2.kind = first.kind.group) ∧
        ((∀ inst ∈ instances, ∀ other ∈ instances, inst.name = entry.1 → other.name = entry.1 →
          inst.kind.group = other.kind.group) → entry.2.Uniform)) ∧
    ∀ setting matchers path report, (Extraction.extract setting matchers path).1 = .ok report →
      matchers.SetsApart → ∀ entry ∈ report.groups, entry.2.Uniform := by
  refine ⟨fun instances entry listed => Report.kind_of_mem listed, ?_⟩
  intro setting matchers path report extracted apart entry listed
  obtain ⟨instances, rfl, taken⟩ := Extraction.takes_extract extracted
  refine (Report.kind_of_mem listed).2 fun inst among other present same equal => ?_
  have first : matchers.Takes inst.kind entry.1 := same ▸ taken inst among
  have second : matchers.Takes other.kind entry.1 := equal ▸ taken other present
  exact apart entry.1 inst.kind other.kind first second

/-- An element with a given name, and a call of `css`. -/
def elementAndCall (name : String) : Module :=
  ⟨[.group [.expr (.other ⟨1, 14⟩ "JSXElement" [.opening (.mk ⟨1, 14⟩ (.ident ⟨name, 1⟩)
      [.named ⟨6, 11⟩ "a" (.literal ⟨8, 11⟩ (.string "x"))])])],
    .group [.expr (.call ⟨16, 31⟩ (some (.ident ⟨16, 19⟩ ⟨"css", 1⟩))
      [.single (.object ⟨20, 30⟩
        [.keyed ⟨22, 28⟩ (.name "b") (.literal ⟨25, 28⟩ (.string "y"))])])]]⟩

/-- A call, an element and a template, of which the first and the last have one name. -/
def mixedInstances : List Instance :=
  [⟨"css", .call, ⟨⟨"/a.tsx"⟩, ⟨1, 16⟩, .call⟩,
      .list [.map [("b", .text "y" none)] none] none⟩,
    ⟨"Box", .element, ⟨⟨"/a.tsx"⟩, ⟨18, 31⟩, .opening⟩, .map [("a", .text "x" none)] none⟩,
    ⟨"css", .template, ⟨⟨"/a.tsx"⟩, ⟨33, 38⟩, .tagged⟩, .text "" none⟩]

/-- Calls and templates share a group, and `<Box a="x" />; css({ b: "y" });` is extracted with rules
for each name. -/
theorem groups_of_one_kind_apart :
    let file := Document.make ⟨"/a.tsx"⟩ "" (elementAndCall "Box")
    let setting : Setting := { project := Project.insert {} file }
    let matchers : Matchers :=
      { components := some (NameRules.components { names := .only ["Box"] })
        functions := some (NameRules.functions { names := .only ["css"] }) }
    (∀ entry ∈ (Report.ofList mixedInstances).groups, entry.2.Uniform) ∧
    matchers.SetsApart ∧ ∃ report, (Extraction.extract setting matchers file.path).1 = .ok report ∧
      Entries.keys report.groups = ["Box", "css"] ∧ ∀ entry ∈ report.groups, entry.2.Uniform := by
  intro file setting matchers
  have alike : ∀ inst ∈ mixedInstances, ∀ other ∈ mixedInstances, inst.name = other.name →
      inst.kind.group = other.kind.group := by decide
  have mixed : ∀ entry ∈ (Report.ofList mixedInstances).groups, entry.2.Uniform :=
    fun entry listed => (groups_of_one_kind.1 mixedInstances entry listed).2
      fun inst among other present same equal =>
        alike inst among other present (same.trans equal.symm)
  have apart : matchers.SetsApart := by
    have taken : ∀ name kind, matchers.Takes kind name →
        kind.group = if name = "Box" then .component else .function := by
      intro name kind takes
      cases kind with
      | element =>
        obtain ⟨opening, _, answered⟩ := takes
        have listed : Names.contains (.only ["Box"]) name = true :=
          Except.ok.inj (Option.some_inj.1 answered)
        have same : name = "Box" := by simpa [Names.contains] using listed
        simp [InstanceKind.group, same]
      | call =>
        obtain ⟨call, _, answered⟩ := takes
        have listed : Names.contains (.only ["css"]) name = true :=
          Except.ok.inj (Option.some_inj.1 answered)
        have same : name = "css" := by simpa [Names.contains] using listed
        simp [InstanceKind.group, same]
      | template =>
        obtain ⟨_, _, answered⟩ := takes
        cases answered
    intro name kind other first second
    rw [taken name kind first, taken name other second]
  have names : ((Extraction.extract setting matchers file.path).1.toOption.map fun report =>
      Entries.keys report.groups) = some ["Box", "css"] := by
    decide +kernel
  cases extracted : (Extraction.extract setting matchers file.path).1 with
  | error failure =>
    rw [extracted] at names
    cases names
  | ok report =>
    rw [extracted] at names
    exact ⟨mixed, apart, report, rfl, Option.some_inj.1 names,
      groups_of_one_kind.2 setting matchers file.path report extracted apart⟩

/-- `<css a="x" />; css({ b: "y" });` gives one group, of components, that holds a call. -/
theorem not_groups_of_one_kind :
    let file := Document.make ⟨"/a.tsx"⟩ "" (elementAndCall "css")
    let setting : Setting := { project := Project.insert {} file }
    let matchers : Matchers :=
      { components := some ({} : NameRules).components, functions := some ({} : NameRules).functions }
    ∃ report, (Extraction.extract setting matchers file.path).1 = .ok report ∧
      ∃ entry ∈ report.groups, entry.2.kind = .component ∧
        Entries.keys entry.2.properties = ["a", "b"] ∧
        ∃ inst ∈ entry.2.instances, inst.kind.group ≠ entry.2.kind := by
  intro file setting matchers
  have found : ((Extraction.extract setting matchers file.path).1.toOption.any fun report =>
      ∃ entry ∈ report.groups, entry.2.kind = .component ∧
        Entries.keys entry.2.properties = ["a", "b"] ∧
        ∃ inst ∈ entry.2.instances, inst.kind.group ≠ entry.2.kind) = true := by
    decide +kernel
  cases extracted : (Extraction.extract setting matchers file.path).1 with
  | error failure =>
    rw [extracted] at found
    cases found
  | ok report =>
    rw [extracted] at found
    exact ⟨report, rfl, of_decide_eq_true found⟩

end Glean
