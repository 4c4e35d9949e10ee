import Glean.Evaluation.Evaluate
import Glean.Extraction.Report
import Glean.Matching.Matchers

/-!
# Extraction

Walks over a file, asks the matchers about every element, call and template with a tag, and
evaluates what they take. The first failure of a matcher ends the work on the file; everything asked
up to then has been recorded.
-/

namespace Glean

open Syntax

/-- Why a file has no report. -/
inductive Failure where
  /-- A matcher failed on a question. -/
  | matcher (predicate : String) (file : Path) (node : Reference) (cause : String)
  /-- The project has no such file. -/
  | notFound (file : Path)

namespace Failure

/-- The file that has no report. -/
def file : Failure → Path
  | matcher _ file _ _ | notFound file => file

/-- What a failure says. -/
def message : Failure → String
  | matcher predicate file node _ =>
    "Matcher \x60" ++ predicate ++ "\x60 failed on " ++ node.text ++ " in " ++ file.text
  | notFound file => "File " ++ file.text ++ " is not part of the project index"

end Failure

/-- A computation that a matcher may end. -/
abbrev Extract := ExceptT Failure (StateM Run)

namespace Extraction

section

variable (setting : Setting) (matchers : Matchers) (file : Document)

/-- Asks a matcher and records that it was asked. -/
def ask (question : Question) (answer : Answer) : Extract Bool := do
  (Run.record (.question question) : StateM Run Unit)
  match answer with
  | .ok answer => pure answer
  | .error cause =>
    throw (.matcher question.predicate file.path (question.subject file.path) cause)

/-- Evaluates an expression of the file within a node. -/
def evaluate (around : Reference) (expr : Expr) : Extract Box :=
  (Run.within around (setting.evaluate file.path expr) : StateM Run Box)

/-- The box of an attribute's value. Without a value the attribute is true; elements and empty
braces have no value. -/
def attributeBox (around : Reference) (span : Span) : AttributeValue → Extract Box
  | .missing => evaluate setting file around (.literal span (.boolean true))
  | .literal span value => evaluate setting file around (.literal span value)
  | .expr value => evaluate setting file around value
  | .empty | .element _ => pure (.unknown .unsupported ⟨file.path, span, .attr⟩)

/-- What is collected about an element: the properties taken, and the names of all properties that
it has. -/
structure Collected where
  /-- The boxes of the properties taken. -/
  taken : Entries String Box := []
  /-- The properties that the element has, taken or not. -/
  present : List String := []

/-- Adds a property that the element has, if the matcher takes it. -/
def Collected.offer (matcher : ComponentMatcher) (file : Document) (question : AttributeQuestion)
    (box : Extract Box) (collected : Collected) : Extract Collected := do
  let present := question.property :: collected.present
  if ← ask file (.attr question) (matcher.property question) then
    let box ← box
    pure { taken := Entries.insert collected.taken question.property box, present }
  else pure { collected with present }

/-- Adds the entries of a spread attribute. Those kept under the text of a spread are no
properties. -/
def spreadEntries (matcher : ComponentMatcher) (name : String) (opening : Opening)
    (collected : Collected) : List (String × Box) → Extract Collected
  | [] => pure collected
  | (property, box) :: rest => do
    let collected ←
      if property.startsWith "..." then pure collected
      else collected.offer matcher file ⟨name, opening, property, none⟩ (pure box)
    spreadEntries matcher name opening collected rest

/-- Adds one attribute. A spread is evaluated as an object expression that holds nothing else, so
that its conditionals are merged key by key. -/
def addAttribute (matcher : ComponentMatcher) (name : String) (opening : Opening)
    (around : Reference) (collected : Collected) : Attribute → Extract Collected
  | .named span property value =>
    collected.offer matcher file ⟨name, opening, property, some (span, value)⟩
      (attributeBox setting file around span value)
  | .spread span value => do
    let box ← evaluate setting file around (.object value.span [.spread span value])
    spreadEntries file matcher name opening collected (box.entries?.getD [])

/-- Adds the attributes of an element in order. -/
def addAttributes (matcher : ComponentMatcher) (name : String) (opening : Opening)
    (around : Reference) (collected : Collected) : List Attribute → Extract Collected
  | [] => pure collected
  | first :: rest => do
    let collected ← addAttribute setting file matcher name opening around collected first
    addAttributes matcher name opening around collected rest

/-- Adds the default values of properties that the element does not have. -/
def defaults (matcher : ComponentMatcher) (name : String) (opening : Opening)
    (around : Reference) (collected : Collected) :
    List (String × Primitive) → Extract (Entries String Box)
  | [] => pure collected.taken
  | (property, value) :: rest => do
    let question : AttributeQuestion := ⟨name, opening, property, none⟩
    if collected.present.contains property then
      defaults matcher name opening around collected rest
    else if ← ask file (.attr question) (matcher.property question) then
      let box := Box.literal value (some around)
      defaults matcher name opening around
        { collected with taken := Entries.insert collected.taken property box } rest
    else defaults matcher name opening around collected rest

/-- An element, if the matcher takes it. -/
def component (matcher : ComponentMatcher) (opening : Opening) : Extract (Option Instance) := do
  let name := opening.name.text
  let node : Reference := ⟨file.path, opening.span, .opening⟩
  let question : TagQuestion :=
    ⟨name, opening, matchers.factory.any fun isFactory => isFactory name opening⟩
  if ← ask file (.tag question) (matcher.tag question) then
    let collected ← addAttributes setting file matcher name opening node {} opening.attributes
    let taken ← defaults file matcher name opening node collected (matcher.defaults name)
    pure (some ⟨name, .element, node, .map taken (some node)⟩)
  else pure none

/-- The last member of an object expression with a given key, written as a name or string. -/
def inlineMember? (argument : Expr) (name : String) : Option Member :=
  match argument.unwrap with
  | .object _ members => members.reverse.find? fun
    | .shorthand _ id => id.name = name
    | .keyed _ key _ | .accessor _ _ key _ =>
      match key with
      | .name text | .string text => text = name
      | _ => false
    | .spread .. | .defaulted .. => false
  | _ => none

/-- The entries that the matcher takes. -/
def takenEntries (matcher : FunctionMatcher) (name : String) (call : Call) (argument : Expr) :
    List (String × Box) → Extract (List (String × Box))
  | [] => pure []
  | (property, box) :: rest => do
    let question : PropertyQuestion :=
      ⟨name, call, argument, property, inlineMember? argument property⟩
    let taken ← ask file (.property question) (matcher.property question)
    let others ← takenEntries matcher name call argument rest
    pure (if taken then (property, box) :: others else others)

/-- The box of an argument with only the properties that the matcher takes, in each map that the
argument may be. -/
def takenProperties (matcher : FunctionMatcher) (name : String) (call : Call) (argument : Expr) :
    Box → Extract Box
  | .map entries node => do
    let entries ← takenEntries file matcher name call argument entries
    pure (.map entries node)
  | .conditional whenTrue whenFalse condition node => do
    let whenTrue ← takenProperties matcher name call argument whenTrue
    let whenFalse ← takenProperties matcher name call argument whenFalse
    pure (.conditional whenTrue whenFalse condition node)
  | box => pure box

/-- The boxes of the arguments from a position on; one that is not taken keeps its place. -/
def arguments (matcher : FunctionMatcher) (name : String) (call : Call) (around : Reference)
    (index : Nat) : List Argument → Extract (List Box)
  | [] => pure []
  | first :: rest => do
    let argument := first.value
    let question : ArgumentQuestion := ⟨name, call, index, argument⟩
    let box ←
      if ← ask file (.argument question) (matcher.argument question) then
        let box ← evaluate setting file around argument
        takenProperties file matcher name call argument box
      else pure (.unknown .notEvaluated ⟨file.path, argument.span, .expr⟩)
    let others ← arguments matcher name call around (index + 1) rest
    pure (box :: others)

/-- A call, if its callee has a name and the matcher takes it. -/
def call (matcher : FunctionMatcher) (call : Call) : Extract (Option Instance) := do
  match call.callee.bind Expr.dotted? with
  | none => pure none
  | some name =>
    let node : Reference := ⟨file.path, call.span, .call⟩
    let question : CallQuestion := ⟨name, call⟩
    if ← ask file (.call question) (matcher.call question) then
      let boxes ← arguments setting file matcher name call node 0 call.arguments
      pure (some ⟨name, .call, node, .list boxes (some node)⟩)
    else pure none

/-- A template, if its tag has a name and the matcher takes it. -/
def template (matcher : TemplateMatcher) (tagged : TaggedTemplate) :
    Extract (Option Instance) := do
  match tagged.tag.dotted? with
  | none => pure none
  | some name =>
    let node : Reference := ⟨file.path, tagged.span, .tagged⟩
    let question : TemplateQuestion := ⟨name, tagged⟩
    if ← ask file (.template question) (matcher.template question) then
      let box ← evaluate setting file node
        (.tagged tagged.span tagged.tag tagged.quasis tagged.interpolations)
      pure (some ⟨name, .template, node, box⟩)
    else pure none

/-- The instance that a node gives, apart from the nodes inside it. -/
def ofNode : Node → Extract (Option Instance)
  | .opening value =>
    match matchers.components with
    | some matcher => component setting matchers file matcher value
    | none => pure none
  | .expr (.call span callee arguments) =>
    match matchers.functions with
    | some matcher => call setting file matcher ⟨span, callee, arguments⟩
    | none => pure none
  | .expr (.tagged span tag quasis interpolations) =>
    match matchers.templates with
    | some matcher => template setting file matcher ⟨span, tag, quasis, interpolations⟩
    | none => pure none
  | _ => pure none

/-- The instances that a list of nodes gives, in order. -/
def ofNodes : List Node → Extract (List Instance)
  | [] => pure []
  | first :: rest => do
    let found ← ofNode setting matchers file first
    let others ← ofNodes rest
    pure (found.toList ++ others)

end

/-- Extracts a file from a fresh state; the state at the end holds what was asked. -/
def extract (setting : Setting) (matchers : Matchers) (path : Path) :
    Except Failure Report × Run :=
  match setting.project.file? path with
  | none => (.error (.notFound path), {})
  | some file =>
    let (result, run) := (ofNodes setting matchers file file.module.all).run.run {}
    (result.map Report.ofList, run)

/-- Extracts each of several files for itself, in order. -/
def extractEach (setting : Setting) (matchers : Matchers) (paths : List Path) :
    List (Path × Except Failure Report × Run) :=
  paths.map fun path => (path, extract setting matchers path)

/-- The outcome for each path. A path that is named twice keeps its first place and its last
outcome. -/
def outcomes (runs : List (Path × Except Failure Report × Run)) :
    Entries Path (Except Failure Report) :=
  Entries.ofList (runs.map fun (path, outcome, _) => (path, outcome))

/-- Extracts several files. -/
def extractAll (setting : Setting) (matchers : Matchers) (paths : List Path) :
    Entries Path (Except Failure Report) :=
  outcomes (extractEach setting matchers paths)

end Extraction

end Glean
