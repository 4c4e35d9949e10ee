import Glean.Extraction.Extract
import Glean.Proofs.Extraction.Traits

/-!
# Walking through an extraction

An `Extract.Logic` says something of computations of an extraction and of what they come to, and is
kept by sequencing. The walk through the extraction functions is done here once for all logics: what
a logic says of every question that is posed (`Extraction.Poses`) and of every evaluation, it says of
the extraction of a list of nodes, and the boxes that come out keep to a trait
(`Extraction.Allows.ofNodes_holds`).
-/

namespace Glean

open Syntax Box

/-- A property of computations that is kept by sequencing. -/
structure Extract.Logic where
  /-- The property holds, and what the computation comes to is as expected. -/
  Holds : {α : Type} → (α → Prop) → Extract α → Prop
  /-- Values on their own. -/
  pure : ∀ {α : Type} {expected : α → Prop} {value : α}, expected value →
    Holds expected (Pure.pure value)
  /-- One computation after the other. -/
  bind : ∀ {α β : Type} {expected : α → Prop} {after : β → Prop} {computation : Extract α}
    {next : α → Extract β}, Holds expected computation →
    (∀ value, expected value → Holds after (next value)) → Holds after (computation >>= next)

/-- A computation hands its value and its state on, or stops at its failure. -/
theorem Extract.run_bind {α β : Type} (computation : Extract α) (next : α → Extract β) (run : Run) :
    (computation >>= next).run.run run =
      match computation.run.run run with
      | (.ok value, after) => (next value).run.run after
      | (.error failure, after) => (.error failure, after) := by
  rw [ExceptT.run_bind, StateT.run_bind]
  obtain ⟨result, after⟩ := computation.run.run run
  cases result <;> rfl

/-- A computation that comes to a value after another one does so from the value of the first. -/
theorem Extract.ok_of_bind {α β : Type} {computation : Extract α} {next : α → Extract β}
    {run after : Run} {value : β} (ended : (computation >>= next).run.run run = (.ok value, after)) :
    ∃ first middle, computation.run.run run = (.ok first, middle) ∧
      (next first).run.run middle = (.ok value, after) := by
  rw [run_bind] at ended
  split at ended
  · rename_i first middle started
    exact ⟨first, middle, started, ended⟩
  · cases ended

/-- The state after a question was posed. -/
def Run.posed (run : Run) (question : Question) : Run :=
  { run with events := .question question :: run.events }

/-- A question is posed, and its answer is passed on. -/
theorem Extraction.ask_run (file : Document) (question : Question) (answer : Answer) (run : Run) :
    (ask file question answer).run.run run =
      (answer.mapError fun cause =>
        .matcher question.predicate file.path (question.subject file.path) cause,
        run.posed question) := by
  cases answer <;> rfl

/-- An evaluation within a node does not fail, and leaves the node. -/
theorem Extraction.evaluate_run (setting : Setting) (file : Document) (around : Reference)
    (expr : Expr) (run : Run) :
    (evaluate setting file around expr).run.run run =
      let ended := (setting.evaluate file.path expr).run { run with stack := around :: run.stack }
      (.ok ended.1, { ended.2 with stack := ended.2.stack.tail }) := rfl

/-- The extraction of a file is that of its nodes from a fresh state. -/
theorem Extraction.extract_eq {setting : Setting} (matchers : Matchers) {path : Path}
    {file : Document} (found : setting.project.file? path = some file) :
    extract setting matchers path =
      let ended := (ofNodes setting matchers file file.module.all).run.run {}
      (ended.1.map Report.ofList, ended.2) := by
  rw [extract, found]
  rfl

/-- Computations that keep an invariant of the working state. -/
def Extract.Logic.keeping (invariant : Run → Prop) : Extract.Logic where
  Holds expected computation := ∀ run, invariant run →
    invariant (computation.run.run run).2 ∧
      ∀ value, (computation.run.run run).1 = .ok value → expected value
  pure held run holds := ⟨holds, fun _ same => Except.ok.inj same ▸ held⟩
  bind := by
    intro α β expected after computation next first rest run holds
    obtain ⟨kept, comes⟩ := first run holds
    rw [Extract.run_bind]
    split
    · rename_i value middle ended
      rw [ended] at kept comes
      exact rest value (comes value rfl) middle kept
    · rename_i failure middle ended
      rw [ended] at kept
      exact ⟨kept, nofun⟩

namespace Extraction

/-- What every value of a computation that does not fail is like. -/
def ending : Extract.Logic where
  Holds expected computation := ∀ run value after,
    computation.run.run run = (.ok value, after) → expected value
  pure held run value after ended := by
    cases ended
    exact held
  bind := by
    intro α β expected after computation next first rest run value last ended
    obtain ⟨middle, state, started, ended⟩ := Extract.ok_of_bind ended
    exact rest middle (first run middle state started) state value last ended

/-- Every computation ends in some way. -/
theorem ending_any {α : Type} (computation : Extract α) :
    ending.Holds (fun _ => True) computation := fun _ _ _ _ => trivial

/-- A question that has come to a value was answered with it. -/
theorem ending_ask (file : Document) (question : Question) (answer : Answer) :
    ending.Holds (fun value => answer = .ok value) (ask file question answer) := by
  intro run value after ended
  cases answer with
  | ok given =>
    cases ended
    rfl
  | error cause => cases ended

/-- Where something is found, the question for it was answered with yes. -/
theorem ending_asked {file : Document} {expected : Option Instance → Prop} {question : Question}
    {answer : Answer} {taken : Extract (Option Instance)} (nothing : expected none)
    (found : answer = .ok true → ending.Holds expected taken) :
    ending.Holds expected
      (ask file question answer >>= fun answer => if answer then taken else pure none) := by
  refine ending.bind (ending_ask _ _ _) fun value answered => ?_
  cases value with
  | false => exact ending.pure nothing
  | true => exact found answered

/-- What holds of the instance that each node gives holds of all that nodes give. -/
theorem ending_ofNodes {setting : Setting} {matchers : Matchers} {file : Document}
    {holds : Instance → Prop}
    (each : ∀ node, ending.Holds (fun found : Option Instance => ∀ inst ∈ found, holds inst)
      (ofNode setting matchers file node)) (nodes : List Node) :
    ending.Holds (fun found : List Instance => ∀ inst ∈ found, holds inst)
      (ofNodes setting matchers file nodes) := by
  induction nodes with
  | nil => exact ending.pure nofun
  | cons first rest ih =>
    refine ending.bind (each first) fun found held => ?_
    refine ending.bind ih fun others heldNext => ending.pure fun inst listed => ?_
    rcases List.mem_append.1 listed with here | there
    · exact held inst (Option.mem_toList.1 here)
    · exact heldNext inst there

/-- The report of a file is made of the instances that its nodes give. -/
theorem exists_instances_of_extract {setting : Setting} {matchers : Matchers} {path : Path}
    {report : Report} {holds : Instance → Prop}
    (each : ∀ file node, ending.Holds (fun found : Option Instance => ∀ inst ∈ found, holds inst)
      (ofNode setting matchers file node))
    (extracted : (extract setting matchers path).1 = .ok report) :
    ∃ instances, report = .ofList instances ∧ ∀ inst ∈ instances, holds inst := by
  cases found : setting.project.file? path with
  | none =>
    rw [extract, found] at extracted
    cases extracted
  | some file =>
    rw [extract_eq matchers found] at extracted
    rcases ended : (ofNodes setting matchers file file.module.all).run.run {} with
      ⟨failure | instances, after⟩
    · rw [ended] at extracted
      cases extracted
    · rw [ended] at extracted
      cases extracted
      exact ⟨instances, rfl, ending_ofNodes (each file) file.module.all {} instances after ended⟩

/-- The questions that an extraction of nodes may pose to the matchers, each with its answer and with
the node that it is about. -/
inductive Poses (matchers : Matchers) (path : Path) (nodes : List Node) :
    Question → Answer → Reference → Prop where
  /-- Is an element taken? -/
  | tag {matcher : ComponentMatcher} {opening : Opening} {question : TagQuestion}
    (given : matchers.components = some matcher) (listed : .opening opening ∈ nodes)
    (asked : question = ⟨opening.name.text, opening,
      matchers.factory.any fun isFactory => isFactory opening.name.text opening⟩) :
    Poses matchers path nodes (.tag question) (matcher.tag question) ⟨path, opening.span, .opening⟩
  /-- Is a written attribute taken? -/
  | named {matcher : ComponentMatcher} {opening : Opening} {span : Span} {property : String}
    {value : AttributeValue} {question : AttributeQuestion}
    (given : matchers.components = some matcher) (listed : .opening opening ∈ nodes)
    (written : .named span property value ∈ opening.attributes)
    (asked : question = ⟨opening.name.text, opening, property, some (span, value)⟩) :
    Poses matchers path nodes (.attr question) (matcher.property question) ⟨path, span, .attr⟩
  /-- Is an entry of a spread attribute taken? It is about the element. -/
  | entry {matcher : ComponentMatcher} {opening : Opening} {span : Span} {value : Expr}
    {property : String} {question : AttributeQuestion} (given : matchers.components = some matcher)
    (listed : .opening opening ∈ nodes) (written : .spread span value ∈ opening.attributes)
    (asked : question = ⟨opening.name.text, opening, property, none⟩) :
    Poses matchers path nodes (.attr question) (matcher.property question)
      ⟨path, opening.span, .opening⟩
  /-- Is a default taken? It is about the element, too. -/
  | default {matcher : ComponentMatcher} {opening : Opening} {property : String}
    {question : AttributeQuestion} (given : matchers.components = some matcher)
    (listed : .opening opening ∈ nodes)
    (stated : property ∈ Entries.keys (matcher.defaults opening.name.text))
    (asked : question = ⟨opening.name.text, opening, property, none⟩) :
    Poses matchers path nodes (.attr question) (matcher.property question)
      ⟨path, opening.span, .opening⟩
  /-- Is a call taken? -/
  | call {matcher : FunctionMatcher} {call : Call} {name : String} {question : CallQuestion}
    (given : matchers.functions = some matcher)
    (listed : .expr (.call call.span call.callee call.arguments) ∈ nodes)
    (named : call.callee.bind Expr.dotted? = some name) (asked : question = ⟨name, call⟩) :
    Poses matchers path nodes (.call question) (matcher.call question) ⟨path, call.span, .call⟩
  /-- Is an argument of a call taken? -/
  | argument {matcher : FunctionMatcher} {call : Call} {name : String} {index : Nat}
    {argument : Argument} {question : ArgumentQuestion} (given : matchers.functions = some matcher)
    (listed : .expr (.call call.span call.callee call.arguments) ∈ nodes)
    (named : call.callee.bind Expr.dotted? = some name)
    (placed : call.arguments[index]? = some argument)
    (asked : question = ⟨name, call, index, argument.value⟩) :
    Poses matchers path nodes (.argument question) (matcher.argument question)
      ⟨path, argument.value.span, .expr⟩
  /-- Is a property of an argument taken that a member is written for? -/
  | member {matcher : FunctionMatcher} {call : Call} {name key : String} {argument : Argument}
    {member : Member} {question : PropertyQuestion} (given : matchers.functions = some matcher)
    (listed : .expr (.call call.span call.callee call.arguments) ∈ nodes)
    (named : call.callee.bind Expr.dotted? = some name) (among : argument ∈ call.arguments)
    (written : inlineMember? argument.value key = some member)
    (asked : question = ⟨name, call, argument.value, key, some member⟩) :
    Poses matchers path nodes (.property question) (matcher.property question)
      ⟨path, member.span, .property⟩
  /-- Is any other property of an argument taken? It is about the argument. -/
  | property {matcher : FunctionMatcher} {call : Call} {name key : String} {argument : Argument}
    {question : PropertyQuestion} (given : matchers.functions = some matcher)
    (listed : .expr (.call call.span call.callee call.arguments) ∈ nodes)
    (named : call.callee.bind Expr.dotted? = some name) (among : argument ∈ call.arguments)
    (unwritten : inlineMember? argument.value key = none)
    (asked : question = ⟨name, call, argument.value, key, none⟩) :
    Poses matchers path nodes (.property question) (matcher.property question)
      ⟨path, argument.value.span, .expr⟩
  /-- Is a template taken? -/
  | template {matcher : TemplateMatcher} {tagged : TaggedTemplate} {name : String}
    {question : TemplateQuestion} (given : matchers.templates = some matcher)
    (listed : .expr (.tagged tagged.span tagged.tag tagged.quasis tagged.interpolations) ∈ nodes)
    (named : tagged.tag.dotted? = some name) (asked : question = ⟨name, tagged⟩) :
    Poses matchers path nodes (.template question) (matcher.template question)
      ⟨path, tagged.span, .tagged⟩

/-- A question knows the node that it is about. -/
theorem Poses.subject {matchers : Matchers} {path : Path} {nodes : List Node} {question : Question}
    {answer : Answer} {node : Reference} (poses : Poses matchers path nodes question answer node) :
    question.subject path = node := by
  cases poses <;> subst_vars <;> rfl

/-- The expressions that an extraction of nodes may evaluate. -/
inductive Evaluates (nodes : List Node) : Expr → Prop where
  /-- An attribute without a value is true. -/
  | bare {opening : Opening} {span : Span} {property : String} (listed : .opening opening ∈ nodes)
    (written : .named span property .missing ∈ opening.attributes) :
    Evaluates nodes (.literal span (.boolean true))
  /-- A literal after the name of an attribute. -/
  | literal {opening : Opening} {span place : Span} {property : String} {value : Literal}
    (listed : .opening opening ∈ nodes)
    (written : .named span property (.literal place value) ∈ opening.attributes) :
    Evaluates nodes (.literal place value)
  /-- An expression in braces after the name of an attribute. -/
  | braced {opening : Opening} {span : Span} {property : String} {value : Expr}
    (listed : .opening opening ∈ nodes)
    (written : .named span property (.expr value) ∈ opening.attributes) : Evaluates nodes value
  /-- A spread attribute, as an object that holds nothing else. -/
  | spread {opening : Opening} {span : Span} {value : Expr} (listed : .opening opening ∈ nodes)
    (written : .spread span value ∈ opening.attributes) :
    Evaluates nodes (.object value.span [.spread span value])
  /-- An argument of a call. -/
  | argument {span : Span} {callee : Option Expr} {arguments : List Argument} {argument : Argument}
    (listed : .expr (.call span callee arguments) ∈ nodes) (among : argument ∈ arguments) :
    Evaluates nodes argument.value
  /-- A template with its tag. -/
  | template {span : Span} {tag : Expr} {quasis : List Quasi} {interpolations : List Expr}
    (listed : .expr (.tagged span tag quasis interpolations) ∈ nodes) :
    Evaluates nodes (.tagged span tag quasis interpolations)

/-- A logic holds of what the extraction of nodes asks and evaluates, and the boxes that it evaluates
and the nodes that it asks about keep to a trait. -/
structure Allows (logic : Extract.Logic) (setting : Setting) (matchers : Matchers) (file : Document)
    (nodes : List Node) (trait : Trait) : Prop where
  asks : ∀ {question answer node}, Poses matchers file.path nodes question answer node →
    logic.Holds (fun _ => True) (ask file question answer)
  evaluates : ∀ {around expr}, Evaluates nodes expr → trait.Nodes around →
    logic.Holds (Has trait) (evaluate setting file around expr)
  places : ∀ {question answer node}, Poses matchers file.path nodes question answer node →
    trait.Nodes node
  reasons : ∀ reason, reason ≠ .cycle → trait.Reasons reason

namespace Allows

variable {logic : Extract.Logic} {setting : Setting} {matchers : Matchers} {file : Document}
  {nodes : List Node} {trait : Trait} (allows : Allows logic setting matchers file nodes trait)

include allows

/-- A question decides between two computations. -/
theorem branch_holds {α : Type} {expected : α → Prop} {question : Question} {answer : Answer}
    {node : Reference} {taken refused : Extract α}
    (poses : Poses matchers file.path nodes question answer node)
    (yes : logic.Holds expected taken) (no : logic.Holds expected refused) :
    logic.Holds expected
      (ask file question answer >>= fun answer => if answer then taken else refused) := by
  refine logic.bind (allows.asks poses) fun answer _ => ?_
  cases answer with
  | false => exact no
  | true => exact yes

section Elements

variable {matcher : ComponentMatcher} {opening : Opening} {node : Reference}
  (given : matchers.components = some matcher) (listed : .opening opening ∈ nodes)
  {collected : Collected} (before : EntriesHave trait collected.taken)

include before

/-- An attribute that is offered brings what its box has, if it is taken. -/
theorem offer_holds {question : AttributeQuestion} {box : Extract Box}
    (poses : Poses matchers file.path nodes (.attr question) (matcher.property question) node)
    (evaluated : logic.Holds (Has trait) box) :
    logic.Holds (fun after => EntriesHave trait after.taken)
      (collected.offer matcher file question box) := by
  have taken : logic.Holds (fun after : Collected => EntriesHave trait after.taken) (do
      let value ← box
      pure { taken := Entries.insert collected.taken question.property value,
             present := question.property :: collected.present }) :=
    logic.bind evaluated fun value has => logic.pure (before.insert question.property has)
  exact allows.branch_holds poses taken (logic.pure before)

include given listed

/-- The attributes of a spread bring what its entries have. -/
theorem spreadEntries_holds {span : Span} {value : Expr} {entries : List (String × Box)}
    (written : .spread span value ∈ opening.attributes) (values : EntriesHave trait entries) :
    logic.Holds (fun after => EntriesHave trait after.taken)
      (spreadEntries file matcher opening.name.text opening collected entries) := by
  induction entries generalizing collected with
  | nil => exact logic.pure before
  | cons entry rest ih =>
    obtain ⟨property, box⟩ := entry
    have others : ∀ after : Collected, EntriesHave trait after.taken →
        logic.Holds (fun after => EntriesHave trait after.taken)
          (Extraction.spreadEntries file matcher opening.name.text opening after rest) :=
      fun after taken => ih taken fun entry found => values entry (List.mem_cons_of_mem _ found)
    unfold Extraction.spreadEntries
    split
    · exact logic.bind (logic.pure before) others
    · have has : Has trait box := values _ (List.mem_cons_self ..)
      exact logic.bind
        (allows.offer_holds before (.entry given listed written rfl) (logic.pure has)) others

/-- Defaults bring values that the logic allows. -/
theorem defaults_holds (values : List (String × Primitive))
    (stated : ∀ value ∈ values, value ∈ matcher.defaults opening.name.text) :
    logic.Holds (EntriesHave trait)
      (defaults file matcher opening.name.text opening ⟨file.path, opening.span, .opening⟩ collected
        values) := by
  induction values generalizing collected with
  | nil => exact logic.pure before
  | cons first rest ih =>
    obtain ⟨property, value⟩ := first
    have others : ∀ {after : Collected}, EntriesHave trait after.taken →
        logic.Holds (EntriesHave trait) (Extraction.defaults file matcher opening.name.text opening
          ⟨file.path, opening.span, .opening⟩ after rest) :=
      fun taken => ih taken fun value found => stated value (List.mem_cons_of_mem _ found)
    have known : property ∈ Entries.keys (matcher.defaults opening.name.text) :=
      List.mem_map.2 ⟨_, stated _ (List.mem_cons_self ..), rfl⟩
    have place : trait.Nodes ⟨file.path, opening.span, .opening⟩ :=
      allows.places (.tag given listed rfl)
    unfold Extraction.defaults
    dsimp only
    split
    · exact others before
    · have added := before.insert property (.literal value (.here place))
      exact allows.branch_holds (.default given listed known rfl) (others added) (others before)

omit before

/-- The value of an attribute has what the logic allows. -/
theorem attributeBox_holds {span : Span} {property : String} {value : AttributeValue}
    (written : .named span property value ∈ opening.attributes) :
    logic.Holds (Has trait)
      (attributeBox setting file ⟨file.path, opening.span, .opening⟩ span value) := by
  have place : trait.Nodes ⟨file.path, opening.span, .opening⟩ :=
    allows.places (.tag given listed rfl)
  have origin : trait.Nodes ⟨file.path, span, .attr⟩ :=
    allows.places (.named given listed written rfl)
  have unsupported : trait.Reasons .unsupported := allows.reasons _ (by decide)
  cases value with
  | missing => exact allows.evaluates (.bare listed written) place
  | literal => exact allows.evaluates (.literal listed written) place
  | expr => exact allows.evaluates (.braced listed written) place
  | empty | element => exact logic.pure (.unresolvable unsupported (.here origin))

include before

/-- An attribute brings values that the logic allows. -/
theorem addAttribute_holds {attr : Attribute} (written : attr ∈ opening.attributes) :
    logic.Holds (fun after => EntriesHave trait after.taken)
      (addAttribute setting file matcher opening.name.text opening
        ⟨file.path, opening.span, .opening⟩ collected attr) := by
  cases attr with
  | named span property value =>
    exact allows.offer_holds before (.named given listed written rfl)
      (allows.attributeBox_holds given listed written)
  | spread span value =>
    have place : trait.Nodes ⟨file.path, opening.span, .opening⟩ :=
      allows.places (.tag given listed rfl)
    refine logic.bind (allows.evaluates (.spread listed written) place) fun box has => ?_
    exact allows.spreadEntries_holds given listed before written has.properties

/-- Attributes bring values that the logic allows. -/
theorem addAttributes_holds (attributes : List Attribute)
    (written : ∀ attr ∈ attributes, attr ∈ opening.attributes) :
    logic.Holds (fun after => EntriesHave trait after.taken)
      (addAttributes setting file matcher opening.name.text opening
        ⟨file.path, opening.span, .opening⟩ collected attributes) := by
  induction attributes generalizing collected with
  | nil => exact logic.pure before
  | cons first rest ih =>
    have added :=
      allows.addAttribute_holds given listed before (written first (List.mem_cons_self ..))
    exact logic.bind added fun after taken =>
      ih taken fun attr found => written attr (List.mem_cons_of_mem _ found)

omit before

/-- The instance of an element is its node with the properties taken. -/
theorem component_holds : logic.Holds (fun result => ∀ inst ∈ result, inst.Has trait)
    (component setting matchers file matcher opening) := by
  have place : trait.Nodes ⟨file.path, opening.span, .opening⟩ :=
    allows.places (.tag given listed rfl)
  refine allows.branch_holds (.tag given listed rfl) ?_ (logic.pure nofun)
  have none : EntriesHave trait [] := nofun
  refine logic.bind (allows.addAttributes_holds given listed none _ fun _ found => found)
    fun collected taken => ?_
  refine logic.bind (allows.defaults_holds given listed taken _ fun _ found => found)
    fun entries values => logic.pure ?_
  rintro _ ⟨⟩
  exact ⟨place, .map values (.here place)⟩

end Elements

section Calls

variable {matcher : FunctionMatcher} {site : Call} {name : String}
  (given : matchers.functions = some matcher)
  (listed : .expr (.call site.span site.callee site.arguments) ∈ nodes)
  (named : site.callee.bind Expr.dotted? = some name)

include given listed named

/-- The entries that are taken of an argument have what its entries have. -/
theorem takenEntries_holds {argument : Argument} (among : argument ∈ site.arguments)
    {entries : List (String × Box)} (values : EntriesHave trait entries) :
    logic.Holds (EntriesHave trait)
      (takenEntries file matcher name site argument.value entries) := by
  induction entries with
  | nil => exact logic.pure nofun
  | cons entry rest ih =>
    obtain ⟨property, box⟩ := entry
    have has : Has trait box := values _ (List.mem_cons_self ..)
    let question : PropertyQuestion :=
      ⟨name, site, argument.value, property, inlineMember? argument.value property⟩
    have asks : logic.Holds (fun _ => True)
        (ask file (.property question) (matcher.property question)) := by
      dsimp only [question]
      cases written : inlineMember? argument.value property with
      | none => exact allows.asks (.property given listed named among written rfl)
      | some member => exact allows.asks (.member given listed named among written rfl)
    refine logic.bind asks fun taken _ => ?_
    have others := ih fun entry found => values entry (List.mem_cons_of_mem _ found)
    refine logic.bind others fun others kept => logic.pure fun entry found => ?_
    split at found
    · rcases List.mem_cons.1 found with rfl | found
      · exact has
      · exact kept entry found
    · exact kept entry found

/-- The properties that are taken of an argument have what its box has. -/
theorem takenProperties_holds {argument : Argument} (among : argument ∈ site.arguments) {box : Box}
    (has : Has trait box) :
    logic.Holds (Has trait) (takenProperties file matcher name site argument.value box) := by
  induction has with
  | map values origin =>
    have kept := allows.takenEntries_holds given listed named among values
    exact logic.bind kept fun entries values => logic.pure (.map values origin)
  | conditional splits _ _ asked origin first second =>
    exact logic.bind first fun whenTrue yes => logic.bind second fun whenFalse no =>
      logic.pure (.conditional splits yes no asked origin)
  | literal value origin => exact logic.pure (.literal value origin)
  | list each origin => exact logic.pure (.list each origin)
  | unresolvable admitted origin => exact logic.pure (.unresolvable admitted origin)

/-- The arguments of a call have what the logic allows. -/
theorem arguments_holds (before rest : List Argument) (whole : site.arguments = before ++ rest) :
    logic.Holds (ItemsHave trait) (arguments setting file matcher name site
      ⟨file.path, site.span, .call⟩ before.length rest) := by
  induction rest generalizing before with
  | nil => exact logic.pure nofun
  | cons first rest ih =>
    have here : site.arguments[before.length]? = some first := by simp [whole]
    have among : first ∈ site.arguments := List.mem_of_getElem? here
    have place : trait.Nodes ⟨file.path, site.span, .call⟩ :=
      allows.places (.call given listed named rfl)
    have origin : trait.Nodes ⟨file.path, first.value.span, .expr⟩ :=
      allows.places (.argument given listed named here rfl)
    have refused : Has trait (.unknown .notEvaluated ⟨file.path, first.value.span, .expr⟩) :=
      .unresolvable (allows.reasons _ (by decide)) (.here origin)
    have others : ∀ box, Has trait box → logic.Holds (ItemsHave trait) (do
        let others ← Extraction.arguments setting file matcher name site
          ⟨file.path, site.span, .call⟩ (before.length + 1) rest
        pure (box :: others)) := by
      intro box has
      have following := ih (before ++ [first]) (by simp [whole])
      rw [List.length_append] at following
      refine logic.bind following fun others values => logic.pure fun item found => ?_
      rcases List.mem_cons.1 found with rfl | found
      · exact has
      · exact values item found
    unfold Extraction.arguments
    refine allows.branch_holds (.argument given listed named here rfl) ?_ ?_
    · refine logic.bind (allows.evaluates (.argument listed among) place) fun box has => ?_
      exact logic.bind (allows.takenProperties_holds given listed named among has) others
    · exact logic.bind (logic.pure refused) others

omit named in
/-- The instances of a call have what the logic allows. -/
theorem call_holds : logic.Holds (fun result => ∀ inst ∈ result, inst.Has trait)
    (call setting file matcher site) := by
  unfold Extraction.call
  split
  · exact logic.pure nofun
  · rename_i name named
    have place : trait.Nodes ⟨file.path, site.span, .call⟩ :=
      allows.places (.call given listed named rfl)
    refine allows.branch_holds (.call given listed named rfl) ?_ (logic.pure nofun)
    refine logic.bind (allows.arguments_holds given listed named [] _ rfl) fun boxes values =>
      logic.pure ?_
    rintro _ ⟨⟩
    exact ⟨place, .list values (.here place)⟩

end Calls

/-- The instances of a template have what the logic allows. -/
theorem template_holds {matcher : TemplateMatcher} {tagged : TaggedTemplate}
    (given : matchers.templates = some matcher)
    (listed : .expr (.tagged tagged.span tagged.tag tagged.quasis tagged.interpolations) ∈ nodes) :
    logic.Holds (fun result => ∀ inst ∈ result, inst.Has trait)
      (template setting file matcher tagged) := by
  unfold Extraction.template
  split
  · exact logic.pure nofun
  · rename_i name named
    have place : trait.Nodes ⟨file.path, tagged.span, .tagged⟩ :=
      allows.places (.template given listed named rfl)
    refine allows.branch_holds (.template given listed named rfl) ?_ (logic.pure nofun)
    refine logic.bind (allows.evaluates (.template listed) place) fun box has => logic.pure ?_
    rintro _ ⟨⟩
    exact ⟨place, has⟩

/-- The instances at a node have what the logic allows. -/
theorem ofNode_holds {node : Node} (listed : node ∈ nodes) :
    logic.Holds (fun result => ∀ inst ∈ result, inst.Has trait)
      (ofNode setting matchers file node) := by
  unfold Extraction.ofNode
  split
  · split
    · rename_i matcher given
      exact allows.component_holds given listed
    · exact logic.pure nofun
  · split
    · rename_i matcher given
      exact allows.call_holds given listed
    · exact logic.pure nofun
  · split
    · rename_i matcher given
      exact allows.template_holds given listed
    · exact logic.pure nofun
  · exact logic.pure nofun

/-- The logic holds of the extraction of the nodes, and what is found keeps to the trait. -/
theorem ofNodes_holds (list : List Node) (among : ∀ node ∈ list, node ∈ nodes) :
    logic.Holds (fun instances => ∀ inst ∈ instances, inst.Has trait)
      (ofNodes setting matchers file list) := by
  induction list with
  | nil => exact logic.pure nofun
  | cons first rest ih =>
    refine logic.bind (allows.ofNode_holds (among first (List.mem_cons_self ..))) fun found has => ?_
    have others := ih fun node listed => among node (List.mem_cons_of_mem _ listed)
    refine logic.bind others fun others each => logic.pure fun inst listed => ?_
    rcases List.mem_append.1 listed with listed | listed
    · exact has inst (Option.mem_toList.1 listed)
    · exact each inst listed

end Allows

end Extraction

end Glean
