import Glean.Proofs.Evaluation.Transparency
import Glean.Proofs.Extraction.Logic
import Glean.Proofs.Extraction.Restricting

/-!
# Extraction of fewer properties

Rules that take some properties give the report of rules that take all of them, without the other
properties (`extract_restricted`). The extraction of fewer properties asks the same questions but
passes over some evaluations, so what is known on the way differs; between evaluations both states
are idle all the same, and from idle states an expression comes to equal boxes. So both extractions
are followed side by side (`Extract.Beside`).
-/

namespace Glean

open Syntax Box

/-- From idle states two computations come to related values, and they leave idle states. -/
def Extract.Beside (setting : Setting) {α β : Type} (related : α → β → Prop) (left : Extract α)
    (right : Extract β) : Prop :=
  ∀ run twin : Run, setting.Idle run → setting.Idle twin →
    ∃ a b after final, left.run.run run = (.ok a, after) ∧ right.run.run twin = (.ok b, final) ∧
      setting.Idle after ∧ setting.Idle final ∧ related a b

namespace Extract.Beside

variable {setting : Setting} {α β γ δ : Type} {related : α → β → Prop}

/-- Related values stand beside each other. -/
theorem pure {a : α} {b : β} (alike : related a b) :
    Beside setting related (Pure.pure a) (Pure.pure b) :=
  fun run twin idle idleTwin => ⟨a, b, run, twin, rfl, rfl, idle, idleTwin, alike⟩

/-- Computations beside each other, followed by such, are beside each other. -/
theorem bind {after : γ → δ → Prop} {left : Extract α} {right : Extract β}
    {leftNext : α → Extract γ} {rightNext : β → Extract δ}
    (first : Beside setting related left right)
    (rest : ∀ a b, related a b → Beside setting after (leftNext a) (rightNext b)) :
    Beside setting after (left >>= leftNext) (right >>= rightNext) := by
  intro run twin idle idleTwin
  obtain ⟨a, b, middle, other, ends, endsTwin, idle, idleTwin, alike⟩ :=
    first run twin idle idleTwin
  rw [run_bind, run_bind, ends, endsTwin]
  exact rest a b alike middle other idle idleTwin

/-- What the first of two computations does before can be passed over by the second. -/
theorem ahead {after : γ → δ → Prop} {computation : Extract α} {next : α → Extract γ}
    {right : Extract δ} (alone : ∃ other : Extract β, Beside setting related computation other)
    (rest : ∀ a, Beside setting after (next a) right) :
    Beside setting after (computation >>= next) right := by
  intro run twin idle idleTwin
  obtain ⟨other, beside⟩ := alone
  obtain ⟨a, _, middle, _, ends, _, idle, _, _⟩ := beside run run idle idle
  rw [run_bind, ends]
  exact rest a middle twin idle idleTwin

/-- Two questions that are answered are asked side by side. -/
theorem ask {file : Document} {question asked : Question} {answer given : Bool}
    {next : Bool → Extract α} {nextTwin : Bool → Extract β}
    (rest : Beside setting related (next answer) (nextTwin given)) :
    Beside setting related (Extraction.ask file question (.ok answer) >>= next)
      (Extraction.ask file asked (.ok given) >>= nextTwin) := by
  intro run twin idle idleTwin
  have recorded : ∀ {run : Run} (question : Question), setting.Idle run →
      setting.Idle { run with events := .question question :: run.events } := fun _ idle =>
    ⟨idle.inProgress, idle.stack, idle.overrides, idle.sound, idle.unknown⟩
  exact rest _ _ (recorded question idle) (recorded asked idleTwin)

/-- A question that is answered in the same way decides in the same way. -/
theorem asked {file : Document} {question asked : Question} {answer : Bool}
    {taken refused : Extract α} {takenTwin refusedTwin : Extract β}
    (yes : Beside setting related taken takenTwin)
    (no : Beside setting related refused refusedTwin) :
    Beside setting related
      (Extraction.ask file question (.ok answer) >>= fun answer =>
        if answer then taken else refused)
      (Extraction.ask file asked (.ok answer) >>= fun answer =>
        if answer then takenTwin else refusedTwin) := by
  refine ask ?_
  cases answer with
  | true => exact yes
  | false => exact no

/-- A question is answered with yes by the first computation and by a test in the second. -/
theorem tested {file : Document} {question asked : Question} {passes : Bool}
    {first other : Extract α} {taken refused : Extract β}
    (yes : passes = true → Beside setting related first taken)
    (no : passes = false → Beside setting related first refused) :
    Beside setting related
      (Extraction.ask file question (.ok true) >>= fun answer =>
        if answer then first else other)
      (Extraction.ask file asked (.ok passes) >>= fun answer =>
        if answer then taken else refused) := by
  refine ask ?_
  cases passes with
  | true => exact yes rfl
  | false => exact no rfl

end Extract.Beside

/-- The rules, but with the given properties taken. -/
def NameRules.taking (rules : NameRules) (properties : Names) : NameRules :=
  { rules with properties }

/-- Rules for each category, and a factory. -/
structure RuleSet where
  /-- The rules for elements. -/
  components : Option NameRules := none
  /-- The rules for calls. -/
  functions : Option NameRules := none
  /-- The rules for templates with a tag. -/
  templates : Option NameRules := none
  /-- Whether an element of a given name comes from the factory. -/
  factory : Option (String → Opening → Bool) := none

/-- The matchers by the rules that take the given properties of elements and of arguments, whatever
the rules say about properties. -/
def RuleSet.taking (set : RuleSet) (properties : Names) : Matchers where
  components := set.components.map fun rules => (rules.taking properties).components
  functions := set.functions.map fun rules => (rules.taking properties).functions
  templates := set.templates.map NameRules.templates
  factory := set.factory

namespace Extraction

open Extract

variable {setting : Setting} {file : Document}
  (found : setting.project.file? file.path = some file) (rules : NameRules) (names : List String)

include found in
/-- An expression of the file comes to equal boxes on both sides. -/
theorem beside_evaluate (around : Reference) (expr : Expr) :
    Beside setting (Alike .blind) (evaluate setting file around expr)
      (evaluate setting file around expr) := by
  intro run twin idle idleTwin
  obtain ⟨alike, left, right⟩ := idle.evaluate_within idleTwin found around expr
  exact ⟨_, _, _, _, rfl, rfl, left, right, alike⟩

/-- Of what is collected on one side the other has the properties that pass, with equal boxes. -/
structure Collected.Restricts (passes : String → Bool) (collected restricted : Collected) :
    Prop where
  taken : AlikeEntries .blind (Entries.keep passes collected.taken) restricted.taken
  present : collected.present = restricted.present

namespace Collected.Restricts

variable {passes : String → Bool} {collected restricted : Collected} {property : String}
  {first second : Box} (before : collected.Restricts passes restricted)

include before

/-- A property that passes is put on both sides. -/
theorem insert (passed : passes property = true) (alike : Alike .blind first second) :
    AlikeEntries .blind (Entries.keep passes (Entries.insert collected.taken property first))
      (Entries.insert restricted.taken property second) := by
  rw [Entries.keep_insert, if_pos passed]
  exact before.taken.insert _ alike

/-- A property that does not pass is put on the first side only. -/
theorem drop (failed : passes property = false) :
    AlikeEntries .blind (Entries.keep passes (Entries.insert collected.taken property first))
      restricted.taken := by
  rw [Entries.keep_insert, if_neg (Bool.eq_false_iff.1 failed)]
  exact before.taken

end Collected.Restricts

section Elements

variable {collected restricted : Collected}
  (before : collected.Restricts names.contains restricted)

include before

/-- Offering an attribute to restricted matchers takes it only if it passes. -/
theorem beside_offer (question : AttributeQuestion) {box other : Extract Box}
    (boxes : Beside setting (Alike .blind) box other) :
    Beside setting (Collected.Restricts names.contains)
      (collected.offer (rules.taking .all).components file question box)
      (restricted.offer (rules.taking (.only names)).components file question other) := by
  have present : question.property :: collected.present = question.property :: restricted.present :=
    congrArg (question.property :: ·) before.present
  refine Beside.tested (fun (passed : names.contains question.property = true) => ?_)
    fun (failed : names.contains question.property = false) => ?_
  · exact Beside.bind boxes fun _ _ alike => .pure ⟨before.insert passed alike, present⟩
  · -- Only the first side evaluates a property that does not pass.
    exact Beside.ahead ⟨other, boxes⟩ fun _ => .pure ⟨before.drop failed, present⟩

/-- Spread entries offered to restricted matchers are taken only if they pass. -/
theorem beside_spreadEntries (name : String) (opening : Opening)
    {entries others : Entries String Box}
    (alike : AlikeEntries .blind entries others) :
    Beside setting (Collected.Restricts names.contains)
      (spreadEntries file (rules.taking .all).components name opening collected entries)
      (spreadEntries file (rules.taking (.only names)).components name opening restricted
        others) := by
  induction entries generalizing others collected restricted with
  | nil =>
    obtain rfl : others = [] := List.map_eq_nil_iff.1 alike.symm
    exact .pure before
  | cons entry rest ih =>
    obtain ⟨property, box⟩ := entry
    obtain ⟨twin, others, rfl, first, alike⟩ := alike.of_cons
    unfold spreadEntries
    dsimp only
    split
    · exact Beside.bind (.pure before) fun _ _ after => ih after alike
    · exact Beside.bind (beside_offer rules names before _ (.pure first)) fun _ _ after =>
        ih after alike

/-- Of the defaults, restricted matchers give those that pass. -/
theorem beside_defaults (name : String) (opening : Opening) (around : Reference)
    (values : List (String × Primitive)) :
    Beside setting (fun all taken => AlikeEntries .blind (Entries.keep names.contains all) taken)
      (defaults file (rules.taking .all).components name opening around collected values)
      (defaults file (rules.taking (.only names)).components name opening around restricted
        values) := by
  induction values generalizing collected restricted with
  | nil => exact .pure before.taken
  | cons first rest ih =>
    obtain ⟨property, value⟩ := first
    unfold defaults
    dsimp only
    rw [before.present]
    split
    · exact ih before
    · refine Beside.tested (fun (passed : names.contains property = true) => ?_)
        fun (failed : names.contains property = false) => ?_
      · exact ih ⟨before.insert passed (.refl _), rfl⟩
      · exact ih ⟨before.drop failed, rfl⟩

include found

omit before in
/-- The value of an attribute does not depend on the matchers. -/
theorem beside_attributeBox (around : Reference) (span : Span) (value : AttributeValue) :
    Beside setting (Alike .blind) (attributeBox setting file around span value)
      (attributeBox setting file around span value) := by
  cases value with
  | empty | element => exact .pure (.refl _)
  | _ => exact beside_evaluate found around _

/-- Attributes offered to restricted matchers are taken only if they pass. -/
theorem beside_addAttributes (name : String) (opening : Opening) (around : Reference)
    (attributes : List Attribute) :
    Beside setting (Collected.Restricts names.contains)
      (addAttributes setting file (rules.taking .all).components name opening around
        collected attributes)
      (addAttributes setting file (rules.taking (.only names)).components name opening
        around restricted attributes) := by
  induction attributes generalizing collected restricted with
  | nil => exact .pure before
  | cons first rest ih =>
    refine Beside.bind ?_ fun _ _ after => ih after
    cases first with
    | named span property value =>
      exact beside_offer rules names before _ (beside_attributeBox found around span value)
    | spread span value =>
      exact Beside.bind (beside_evaluate found around _) fun box twin alike =>
        beside_spreadEntries rules names before name opening alike.entries_getD

end Elements

/-- Instances of one side are those of the other without the properties that do not pass, with equal
boxes. -/
def Restricts (passes : String → Bool) (all restricted : List Instance) : Prop :=
  all.map (fun inst => (inst.restrict passes).seen .blind) = restricted.map (Instance.seen .blind)

/-- Two results for a node restrict each other as lists do. -/
def RestrictsOption (passes : String → Bool) (all restricted : Option Instance) : Prop :=
  Restricts passes all.toList restricted.toList

/-- Instances with equal boxes, once the properties of the first are restricted. -/
theorem restrictsOption_some {passes : String → Bool} {inst : Instance} {box : Box}
    (alike : Alike .blind (inst.restrict passes).box box) :
    RestrictsOption passes (some inst) (some { inst with box }) := by
  have boxes : (inst.restrict passes).box.seen .blind = box.seen .blind := alike
  simp only [RestrictsOption, Restricts, Option.toList_some, List.map_cons, List.map_nil,
    Instance.seen, boxes]
  rfl

section Calls

variable (site : Call) (name : String)

/-- Of the entries of an argument, restricted matchers take those that pass. -/
theorem beside_takenEntries (argument : Expr) {entries others : Entries String Box}
    (alike : AlikeEntries .blind entries others) :
    Beside setting (fun all taken => AlikeEntries .blind (Entries.keep names.contains all) taken)
      (takenEntries file (rules.taking .all).functions name site argument entries)
      (takenEntries file (rules.taking (.only names)).functions name site argument others) := by
  induction entries generalizing others with
  | nil =>
    obtain rfl : others = [] := List.map_eq_nil_iff.1 alike.symm
    exact .pure rfl
  | cons entry rest ih =>
    obtain ⟨property, box⟩ := entry
    obtain ⟨twin, others, rfl, first, alike⟩ := alike.of_cons
    unfold takenEntries
    refine Beside.ask (Beside.bind (ih alike) fun all taken kept => .pure ?_)
    change AlikeEntries .blind (Entries.keep names.contains ((property, box) :: all))
      (if names.contains property then (property, twin) :: taken else taken)
    rw [Entries.keep_cons]
    split
    · exact kept.cons property first
    · exact kept

/-- Of the properties of an argument, restricted matchers take those that pass. -/
theorem beside_takenProperties (argument : Expr) {box other : Box}
    (alike : Alike .blind box other) :
    Beside setting (fun all taken => Alike .blind (all.restrict names.contains) taken)
      (takenProperties file (rules.taking .all).functions name site argument box)
      (takenProperties file (rules.taking (.only names)).functions name site argument other) := by
  induction box generalizing other with
  | map entries node =>
    cases alike.kindred with
    | map _ others _ node' =>
      refine Beside.bind (beside_takenEntries rules names site name argument alike.entries)
        fun all taken kept => .pure ?_
      simp only [Alike, Box.restrict, seen_map, map.injEq]
      exact ⟨kept, rfl⟩
  | conditional whenTrue whenFalse condition node first second =>
    cases alike.kindred with
    | conditional _ _ yes no _ _ conditionNext nodeNext =>
      simp only [Alike, seen_conditional, conditional.injEq] at alike
      refine Beside.bind (first alike.1) fun all taken kept => ?_
      refine Beside.bind (second alike.2.1) fun allNext takenNext keptNext => .pure ?_
      simp only [Alike, Box.restrict, seen_conditional, conditional.injEq]
      exact ⟨kept, keptNext, rfl, rfl⟩
  | literal | list | unresolvable =>
    cases alike.kindred
    exact .pure alike

include found

/-- Of the arguments of a call, restricted matchers take the properties that pass. -/
theorem beside_arguments (around : Reference) (index : Nat) (list : List Argument) :
    Beside setting
      (fun all taken => AlikeItems .blind (all.map (Box.restrict names.contains)) taken)
      (arguments setting file (rules.taking .all).functions name site around index list)
      (arguments setting file (rules.taking (.only names)).functions name site around index
        list) := by
  induction list generalizing index with
  | nil => exact .pure rfl
  | cons first rest ih =>
    unfold arguments
    refine Beside.ask (Beside.bind (beside_evaluate found around _) fun box twin alike => ?_)
    refine Beside.bind (beside_takenProperties rules names site name _ alike)
      fun all taken kept => ?_
    exact Beside.bind (ih (index + 1)) fun others takenOthers keptOthers =>
      .pure (keptOthers.cons kept)

/-- The instance of a call under restricted matchers is its instance, restricted. -/
theorem beside_call :
    Beside setting (RestrictsOption names.contains)
      (call setting file (rules.taking .all).functions site)
      (call setting file (rules.taking (.only names)).functions site) := by
  unfold call
  split
  · exact .pure rfl
  · rename_i name _
    refine Beside.asked ?_ (.pure rfl)
    refine Beside.bind (beside_arguments found rules names site name _ 0 _)
      fun boxes taken kept => .pure ?_
    exact restrictsOption_some (alike_list rfl kept)

end Calls

include found

/-- The instance of an element under restricted matchers is its instance, restricted. -/
theorem beside_component (set : RuleSet) (opening : Opening) :
    Beside setting (RestrictsOption names.contains)
      (component setting (set.taking .all) file (rules.taking .all).components opening)
      (component setting (set.taking (.only names)) file (rules.taking (.only names)).components
        opening) := by
  refine Beside.asked ?_ (.pure rfl)
  have start : Collected.Restricts names.contains {} {} := ⟨rfl, rfl⟩
  refine Beside.bind (beside_addAttributes found rules names start _ opening _ _)
    fun collected restricted before => ?_
  refine Beside.bind (beside_defaults rules names before _ opening _ _)
    fun all taken kept => .pure ?_
  exact restrictsOption_some (alike_map rfl kept)

/-- The instance of a template is the same under restricted matchers. -/
theorem beside_template (tagged : TaggedTemplate) :
    Beside setting (RestrictsOption names.contains)
      (template setting file rules.templates tagged)
      (template setting file rules.templates tagged) := by
  unfold template
  split
  · exact .pure rfl
  · refine Beside.asked ?_ (.pure rfl)
    refine Beside.bind (beside_evaluate found _ _) fun box twin alike => .pure ?_
    exact restrictsOption_some alike

variable (set : RuleSet)

/-- The instance at a node under restricted matchers is its instance, restricted. -/
theorem beside_ofNode (node : Node) :
    Beside setting (RestrictsOption names.contains)
      (ofNode setting (set.taking .all) file node)
      (ofNode setting (set.taking (.only names)) file node) := by
  have none : Beside setting (RestrictsOption names.contains) (pure none) (pure none) := .pure rfl
  unfold ofNode
  split
  · dsimp only [RuleSet.taking]
    cases set.components with
    | none => exact none
    | some rules => exact beside_component found rules names set _
  · dsimp only [RuleSet.taking]
    cases set.functions with
    | none => exact none
    | some rules => exact beside_call found rules names _
  · dsimp only [RuleSet.taking]
    cases set.templates with
    | none => exact none
    | some rules => exact beside_template found rules names _
  · exact none

/-- The instances of nodes under restricted matchers are their instances, restricted. -/
theorem beside_ofNodes (nodes : List Node) :
    Beside setting (Restricts names.contains) (ofNodes setting (set.taking .all) file nodes)
      (ofNodes setting (set.taking (.only names)) file nodes) := by
  induction nodes with
  | nil => exact .pure rfl
  | cons first rest ih =>
    refine Beside.bind (beside_ofNode found names set first) fun one restricted same => ?_
    refine Beside.bind ih fun others restrictedOthers sameOthers => .pure ?_
    simp only [RestrictsOption, Restricts] at same sameOthers ⊢
    rw [List.map_append, List.map_append, same, sameOthers]

end Extraction

/-- When the rules for elements and calls take some properties instead of all, the report is that of
the rules that take all, without the other properties: the same groups of the same instances, with
boxes that are equal whichever nodes they came from. Every file of the project has a report; without
the file, the outcome is the same for both. -/
theorem extract_restricted (setting : Setting) (set : RuleSet) (names : List String) (path : Path) :
    let all := (Extraction.extract setting (set.taking .all) path).1
    let restricted := (Extraction.extract setting (set.taking (.only names)) path).1
    all.isOk = (setting.project.file? path).isSome ∧
      restricted.map (Report.seen .blind) =
        all.map fun report => (report.restrict names.contains).seen .blind := by
  intro all restricted
  cases found : setting.project.file? path with
  | none => simp only [all, restricted, Extraction.extract, found, Except.map, Except.isOk,
      Except.toBool, Option.isSome_none, and_self]
  | some file =>
    have here : setting.project.file? file.path = some file :=
      (Project.file?_congr _ (Project.path_of_file? found).1).trans found
    have idle := setting.idle_start []
    obtain ⟨instances, taken, after, final, ends, endsTaken, _, _, same⟩ :=
      Extraction.beside_ofNodes here names set file.module.all {} {} idle idle
    have reportAll : all = .ok (Report.ofList instances) := by
      simp only [all, Extraction.extract_eq _ found, ends, Except.map]
    have reportRestricted : restricted = .ok (Report.ofList taken) := by
      simp only [restricted, Extraction.extract_eq _ found, endsTaken, Except.map]
    rw [reportAll, reportRestricted]
    have reports := congrArg Report.ofList same
    simp only [Except.map, ← Report.ofList_restrict, ← Report.ofList_seen, List.map_map]
    exact ⟨rfl, congrArg Except.ok reports.symm⟩

-- `<Box a="x" b="y" />;`
example :
    let box : Opening := .mk ⟨1, 21⟩ (.ident ⟨"Box", 1⟩)
      [.named ⟨6, 11⟩ "a" (.literal ⟨8, 11⟩ (.string "x")),
        .named ⟨12, 17⟩ "b" (.literal ⟨14, 17⟩ (.string "y"))]
    let file := Document.make ⟨"/a.tsx"⟩ "" ⟨[.expr (.other ⟨1, 21⟩ "JSXElement" [.opening box])]⟩
    let set : RuleSet := { components := some {} }
    let taken (properties : Names) : Option (List (String × List String)) :=
      (Extraction.extract { project := Project.insert {} file } (set.taking properties) file.path).1
        |>.toOption.map fun report => report.groups.map fun (name, group) =>
          (name, Entries.keys group.properties)
    taken .all = some [("Box", ["a", "b"])] ∧ taken (.only ["b", "c"]) = some [("Box", ["b"])] := by
  decide +kernel

end Glean
