import Glean.Proofs.Box.Spreading
import Glean.Proofs.Extraction.Reports
import Glean.Proofs.Extraction.States

/-!
# Arguments and array expressions

The arguments of a call mean what the elements of an array expression mean, as long as every matcher
takes them. Extraction does not spread: the value of a spread argument is kept as one argument. So
the arguments are the elements of the array expression in which nothing is spread, and those of the
array expression with the same spreads where each spread value stands for itself alone
(`extract_mirrors_array`).
-/

namespace Glean

open Syntax Box

/-- An argument as an element of an array expression that is not spread. -/
def Syntax.Argument.alone (argument : Argument) : Argument := .single argument.value

/-- The value contributes itself alone where it is spread into a list: nothing is known about it, or
it is a text of one character. -/
def Box.standsAlone : Box → Bool
  | .unresolvable .. => true
  | .literal (.string value) _ => value.toList.length == 1
  | _ => false

/-- A box that stands alone is spread as one item. -/
theorem Box.spreadItems_of_alone {box : Box} (alone : box.standsAlone) (node : Reference) :
    box.spreadItems node = [box] := by
  cases box with
  | unresolvable => rfl
  | literal value origin =>
    cases value with
    | string value =>
      obtain ⟨c, single⟩ := List.length_eq_one_iff.1 (beq_iff_eq.1 alone)
      have same : String.singleton c = value := String.toList_inj.1 (by simp [single])
      simp [Box.spreadItems, characters, single, same, text]
    | _ => cases alone
  | _ => cases alone

/-- What looks like a box that stands alone stands alone. -/
theorem Box.Alike.standsAlone {view : View} {left right : Box} (alike : Alike view left right)
    (alone : right.standsAlone) : left.standsAlone := by
  cases alike.kindred with
  | unresolvable => rfl
  | literal value => cases value <;> exact alone
  | _ => cases alone

namespace Extraction

open Extract

variable {setting : Setting} {file : Document} {matcher : FunctionMatcher} {name : String}
  {call : Call}

section Accepting

variable (properties : ∀ question, matcher.property question = .ok true)

include properties

/-- A matcher that takes every property takes all entries. -/
theorem gives_takenEntries (argument : Expr) (entries : List (String × Box)) :
    Gives setting (· = entries) (takenEntries file matcher name call argument entries) := by
  induction entries with
  | nil => exact Gives.pure rfl
  | cons first rest ih =>
    obtain ⟨property, box⟩ := first
    unfold takenEntries
    dsimp only
    rw [properties]
    refine Gives.bind (gives_ask file _ true) fun taken same => ?_
    refine Gives.bind ih fun others all => Gives.pure ?_
    rw [same, all]
    rfl

/-- A matcher that takes every property leaves a box as it is. -/
theorem gives_takenProperties (argument : Expr) (box : Box) :
    Gives setting (· = box) (takenProperties file matcher name call argument box) := by
  induction box using alternatives_induction with
  | single box single =>
    unfold takenProperties
    cases box with
    | conditional => cases single
    | map entries node =>
      refine Gives.bind (gives_takenEntries properties argument entries) fun taken all => ?_
      exact Gives.pure (by rw [all])
    | _ => exact Gives.pure rfl
  | conditional whenTrue whenFalse condition node first second =>
    unfold takenProperties
    refine Gives.bind first fun taken same => Gives.bind second fun other twin => ?_
    exact Gives.pure (by rw [same, twin])

variable (calm : setting.policy.isStackSensitive = false)
  (found : (setting.project.file? file.path).isSome)
  (arguments : ∀ question, matcher.argument question = .ok true)

include calm found arguments

/-- The arguments that a matcher takes come to what their expressions mean, spread or not. -/
theorem gives_arguments (around : Reference) (index : Nat) (list : List Argument) :
    Gives setting (AlikeItems .blind (list.map fun argument =>
        setting.meaning (setting.project.scope file.path) argument.value))
      (Extraction.arguments setting file matcher name call around index list) := by
  induction list generalizing index with
  | nil => exact Gives.pure rfl
  | cons first rest ih =>
    unfold Extraction.arguments
    dsimp only
    rw [arguments]
    refine Gives.bind (gives_ask file _ true) fun taken same => ?_
    subst same
    refine Gives.bind (gives_evaluate calm found around first.value) fun box alike => ?_
    refine Gives.bind (gives_takenProperties properties first.value box) fun taken same => ?_
    subst same
    exact Gives.bind (ih (index + 1)) fun others rest => Gives.pure (AlikeItems.cons alike rest)

end Accepting

end Extraction

namespace Setting

/-- The box of the array expression with the given arguments as its elements, evaluated first of
all. -/
def arrayBox (setting : Setting) (path : Path) (span : Span) (arguments : List Argument) : Box :=
  ((setting.evaluate path (.array span (arguments.map some))).run {}).1

variable {setting : Setting}

section Calm

variable (calm : setting.policy.isStackSensitive = false)
  (evaluates : setting.policy.flags.skipEvaluate = false)
  {path : Path} (found : (setting.project.file? path).isSome)

include calm evaluates found

/-- From a ready state, the array expression comes to the list of what its elements mean. -/
theorem arrayBox_alike (span : Span) (arguments : List Argument) :
    let scope := setting.project.scope path
    let node := scope.refer span
    Alike .blind (.list (arguments.flatMap fun argument =>
      setting.itemsOf scope node (some argument)) (some node))
        (setting.arrayBox path span arguments) := by
  intro scope node
  have evaluated := (setting.ready_start.evaluate calm found (.array span (arguments.map some))).1
  rwa [meaning_array calm evaluates path span, List.flatMap_map] at evaluated

/-- Arguments that are not spread are the items of the array expression. -/
theorem arrayBox_alone_alike (span : Span) (arguments : List Argument) :
    let scope := setting.project.scope path
    Alike .blind (.list (arguments.map fun argument => setting.meaning scope argument.value)
      (some (scope.refer span))) (setting.arrayBox path span (arguments.map Argument.alone)) := by
  intro scope
  have alike := arrayBox_alike calm evaluates found span (arguments.map Argument.alone)
  dsimp only at alike
  rw [List.flatMap_map] at alike
  rwa [List.map_eq_flatMap]

end Calm

/-- Where each spread value stands for itself alone, spreading it or not makes no difference. -/
theorem flatMap_itemsOf_of_alone (calm : setting.policy.isStackSensitive = false) {path : Path}
    (found : (setting.project.file? path).isSome) (node : Reference) {arguments : List Argument}
    (alone : ∀ value, .spread value ∈ arguments →
      ((setting.evaluate path value).run {}).1.standsAlone) :
    let scope := setting.project.scope path
    arguments.flatMap (fun argument => setting.itemsOf scope node (some argument)) =
      arguments.map fun argument => setting.meaning scope argument.value := by
  intro scope
  rw [List.map_eq_flatMap]
  refine List.flatMap_congr fun argument listed => ?_
  cases argument with
  | single value => rfl
  | spread value =>
    have evaluated := (setting.ready_start.evaluate calm found value).1
    exact spreadItems_of_alone (evaluated.standsAlone (alone value listed)) _

end Setting

/-- An instance is that of a call, and its list is that of the array expression with the arguments,
in which nothing is spread. Spreading makes no difference to it where each spread value stands for
itself alone. -/
structure Instance.Gathers (setting : Setting) (file : Document) (span : Span) (name : String)
    (call : Call) (inst : Instance) : Prop where
  name : inst.name = name
  kind : inst.kind = .call
  node : inst.node = ⟨file.path, call.span, .call⟩
  isList : inst.box.items?.isSome
  alone : (inst.box ==
    setting.arrayBox file.path span (call.arguments.map Argument.alone)) = true
  spread : (∀ value, .spread value ∈ call.arguments →
      ((setting.evaluate file.path value).run {}).1.standsAlone) →
    (inst.box == setting.arrayBox file.path span call.arguments) = true

/-- The properties of a call are those of each map that an argument may be. -/
theorem Instance.mem_properties_of_call {inst : Instance} (kind : inst.kind = .call)
    {argument : Box} (listed : argument ∈ inst.box.items?.getD [])
    {entries : Entries String Box} {node : Option Reference}
    (possible : .map entries node ∈ argument.possible) {pair : String × Box}
    (among : pair ∈ entries) : pair ∈ inst.properties := by
  unfold properties indexed
  rw [kind]
  exact List.mem_flatMap.2 ⟨_, List.mem_flatMap.2 ⟨argument, listed, possible⟩, among⟩

namespace Extraction

open Extract

/-- A call that the matcher takes with all its arguments and properties gathers its arguments. -/
theorem gives_call {setting : Setting} {file : Document} {matcher : FunctionMatcher}
    {name : String} {call : Call} {span : Span}
    (calm : setting.policy.isStackSensitive = false)
    (evaluates : setting.policy.flags.skipEvaluate = false)
    (found : (setting.project.file? file.path).isSome)
    (named : call.callee.bind Expr.dotted? = some name)
    (matched : matcher.call ⟨name, call⟩ = .ok true)
    (arguments : ∀ question, matcher.argument question = .ok true)
    (properties : ∀ question, matcher.property question = .ok true) :
    Gives setting (fun result => ∃ inst, result = some inst ∧
        inst.Gathers setting file span name call)
      (Extraction.call setting file matcher call) := by
  unfold Extraction.call
  rw [named]
  dsimp only
  rw [matched]
  refine Gives.bind (gives_ask file _ true) fun taken same => ?_
  subst same
  refine Gives.bind (gives_arguments properties calm found arguments _ 0 call.arguments)
    fun boxes alike => Gives.pure ⟨_, rfl, rfl, rfl, rfl, rfl, ?_, fun alone => ?_⟩
  · have array := Setting.arrayBox_alone_alike calm evaluates found span call.arguments
    exact Alike.beq ((alike_list rfl alike).symm.trans array)
  · have array := Setting.arrayBox_alike calm evaluates found span call.arguments
    dsimp only at array
    rw [Setting.flatMap_itemsOf_of_alone calm found _ alone] at array
    exact Alike.beq ((alike_list rfl alike).symm.trans array)

end Extraction

/-- Under a policy without gate and overrides, a call that a matcher takes with all its arguments
and their properties gathers its arguments as an array expression does. That is so when the call is
visited, whatever was visited before, and in the report of the file, which lists every entry of each
map that an argument may be. -/
theorem extract_mirrors_array (setting : Setting) (matchers : Matchers)
    (matcher : FunctionMatcher) (path : Path) (file : Document) (name : String) (call : Call)
    (span : Span) (ungated : setting.policy.gate = none) (free : setting.policy.overrides = none)
    (evaluates : setting.policy.flags.skipEvaluate = false)
    (found : setting.project.file? path = some file) (chosen : matchers.functions = some matcher)
    (named : call.callee.bind Expr.dotted? = some name)
    (matched : matcher.call ⟨name, call⟩ = .ok true)
    (arguments : ∀ question, matcher.argument question = .ok true)
    (properties : ∀ question, matcher.property question = .ok true) :
    let visited := Node.expr (.call call.span call.callee call.arguments)
    (∀ before, let run := ((Extraction.ofNodes setting matchers file before).run.run {}).2
      ∃ inst, ((Extraction.ofNode setting matchers file visited).run.run run).1 =
        .ok (some inst) ∧ inst.Gathers setting file span name call) ∧
    (visited ∈ file.module.all → ∀ report,
      (Extraction.extract setting matchers path).1 = .ok report →
      ∃ inst, report.Holds inst ∧ inst.Gathers setting file span name call ∧
        ∀ argument ∈ inst.box.items?.getD [], ∀ entries node,
          .map entries node ∈ argument.possible → ∀ property value, (property, value) ∈ entries →
            report.Indexes name property value) := by
  intro visited
  have calm : setting.policy.isStackSensitive = false := by
    simp [Policy.isStackSensitive, ungated, free]
  have present : (setting.project.file? file.path).isSome := by
    rw [Project.file?_congr _ (Project.path_of_file? found).1, found]
    rfl
  -- What the visit gives from any state between evaluations, it gives in the report as well.
  have gives : Extract.Gives setting (fun result => ∃ inst, result = some inst ∧
        inst.Gathers setting file span name call)
      (Extraction.ofNode setting matchers file visited) := by
    unfold Extraction.ofNode
    simp only [visited, chosen]
    exact Extraction.gives_call calm evaluates present named matched arguments properties
  obtain ⟨visits, reported⟩ := Extraction.extracts_of_gives calm present found gives
  refine ⟨visits, fun listed report extracted => ?_⟩
  obtain ⟨instances, rfl, inst, member, gathers⟩ := reported listed report extracted
  refine ⟨inst, Report.holds_ofList member, gathers, ?_⟩
  intro argument item entries node possible property value pair
  have seen := Instance.mem_properties_of_call gathers.kind item possible pair
  exact gathers.name ▸ Report.indexes_ofList member seen

/-- A call of `f` that ends at a byte. -/
def callOf (arguments : List Argument) (stop : Nat) : Call :=
  ⟨⟨1, stop⟩, some (.ident ⟨1, 2⟩ ⟨"f", 1⟩), arguments⟩

/-- A file with a call as its only statement. -/
def callFile (call : Call) : Document :=
  .make ⟨"/a.ts"⟩ "" ⟨[.group [.expr (.call call.span call.callee call.arguments)]]⟩

/-- The call of such a file is among its nodes. -/
theorem call_mem_callFile (call : Call) :
    .expr (.call call.span call.callee call.arguments) ∈ (callFile call).module.all :=
  List.mem_flatMap.2 ⟨_, List.mem_cons_self ..,
    Node.mem_all_of_child (List.mem_cons_self ..) (Node.mem_all_self _)⟩

/-- `{ a: "x" }` -/
def smallObject : Expr :=
  .object ⟨7, 17⟩ [.keyed ⟨9, 15⟩ (.name "a") (.literal ⟨12, 15⟩ (.string "x"))]

/-- A spread name that has no binding is one argument about which nothing is known. -/
theorem extract_mirrors_array_unbound :
    let call := callOf [.spread (.ident ⟨6, 7⟩ ⟨"c", 1⟩), .single smallObject] 19
    let file := callFile call
    let setting : Setting := { project := Project.insert {} file }
    let matcher := ({} : NameRules).functions
    let matchers : Matchers := { functions := some matcher }
    setting.project.file? file.path = some file ∧
      call.callee.bind Expr.dotted? = some "f" ∧
      matcher.call ⟨"f", call⟩ = .ok true ∧
      (∀ question, matcher.argument question = .ok true) ∧
      (∀ question, matcher.property question = .ok true) ∧
      (∀ value, .spread value ∈ call.arguments →
        ((setting.evaluate file.path value).run {}).1.standsAlone) ∧
      ∃ report, (Extraction.extract setting matchers file.path).1 = .ok report ∧
        ∃ inst, report.Holds inst ∧ inst.Gathers setting file call.span "f" call := by
  intro call file setting matcher matchers
  have found : setting.project.file? file.path = some file := Project.file?_insert {} file
  have named : call.callee.bind Expr.dotted? = some "f" := by decide +kernel
  have matched : matcher.call ⟨"f", call⟩ = .ok true := by rfl
  have arguments : ∀ question, matcher.argument question = .ok true := fun _ => rfl
  have properties : ∀ question, matcher.property question = .ok true := fun _ => rfl
  have alone : ∀ value, .spread value ∈ call.arguments →
      ((setting.evaluate file.path value).run {}).1.standsAlone := by
    intro value listed
    obtain rfl : value = .ident ⟨6, 7⟩ ⟨"c", 1⟩ := by simpa [call, callOf] using listed
    decide +kernel
  have ends : (Extraction.extract setting matchers file.path).1.isOk = true := by decide +kernel
  cases extracted : (Extraction.extract setting matchers file.path).1 with
  | error failure =>
    rw [extracted] at ends
    cases ends
  | ok report =>
    obtain ⟨inst, held, gathers, _⟩ := (extract_mirrors_array setting matchers matcher file.path
      file "f" call call.span rfl rfl rfl found rfl named matched arguments properties).2
        (call_mem_callFile call) report extracted
    exact ⟨found, named, matched, arguments, properties, alone, report, rfl, inst, held, gathers⟩

/-- An array that is spread stays one argument, so the maps in it are not seen as arguments, and
nothing is listed for their properties. -/
theorem not_extract_mirrors_array_list :
    let call := callOf [.spread (.array ⟨6, 18⟩ [some (.single smallObject)])] 19
    let file := callFile call
    let setting : Setting := { project := Project.insert {} file }
    let matcher := ({} : NameRules).functions
    let matchers : Matchers := { functions := some matcher }
    let groups := (Extraction.extract setting matchers file.path).1.toOption.map Report.groups
    let boxes := groups.map fun groups =>
      groups.flatMap fun (_, group) => group.instances.map Instance.box
    let listed := groups.map fun groups => groups.map fun (_, group) => Entries.keys group.properties
    let array := setting.arrayBox file.path call.span call.arguments
    let object := Box.map [("a", .text "x" none)] none
    call.callee.bind Expr.dotted? = some "f" ∧
      matcher.call ⟨"f", call⟩ = .ok true ∧
      (∀ question, matcher.argument question = .ok true) ∧
      (∀ question, matcher.property question = .ok true) ∧
      .expr (.call call.span call.callee call.arguments) ∈ file.module.all ∧
      boxes == some [.list [.list [object] none] none] ∧
      array == .list [object] none ∧
      (boxes == some [array]) = false ∧
      listed = some [[]] := by
  intro call file setting matcher matchers groups boxes listed array object
  exact ⟨by decide +kernel, by decide +kernel, fun _ => rfl, fun _ => rfl, call_mem_callFile call,
    by decide +kernel, by decide +kernel, by decide +kernel, by decide +kernel⟩

end Glean
