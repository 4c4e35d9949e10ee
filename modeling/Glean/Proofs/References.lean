import Glean.Proofs.Confinement

/-!
# References that are found again

A reference is a span with a kind, and it is looked up in the file that it names. Whatever an
extraction refers to, instances, boxes and conditions of boxes alike, is found there under that kind,
unless it was made up as an expression where none stands: for a shorthand, an accessor, a computed
key, an attribute without a value or a literal after an attribute's name
(`extract_resolves`).
-/

namespace Glean

open Syntax Box

namespace Project

/-- The reference names a file of the project, in which its node is found. -/
def Resolves (project : Project) (place : Reference) : Prop :=
  ∃ file found, project.file? place.file = some file ∧ file.find? place = some found ∧
    found.kind = place.kind ∧ found.span = place.span

/-- The reference names a file of the project and was made up as an expression there. -/
def Fabricates (project : Project) (place : Reference) : Prop :=
  ∃ file node, project.file? place.file = some file ∧ place.kind = .expr ∧
    node ∈ file.module.all ∧ place.span ∈ node.synthetic

/-- Every file of the project has nested spans. -/
def IsNested (project : Project) : Prop := ∀ entry ∈ project.files, entry.2.module.isNested = true

variable {project : Project} {path : Path} {file : Document}

/-- The modules of a nested project are nested. -/
theorem IsNested.module (nested : project.IsNested) (found : project.file? path = some file) :
    file.module.isNested = true := by
  obtain ⟨_, key, listed⟩ := path_of_file? found
  exact nested (key, file) listed

/-- A node of a file that can be referred to is found. -/
theorem IsNested.resolves (nested : project.IsNested) (found : project.file? path = some file)
    {node : Node} (listed : node ∈ file.module.all) {handle : Handle} (held : handle ∈ node.handles) :
    project.Resolves ⟨file.path, handle.span, handle.kind⟩ := by
  have same : project.file? file.path = some file :=
    (file?_congr project (path_of_file? found).1).trans found
  let place : Reference := ⟨file.path, handle.span, handle.kind⟩
  have here : (place.file == file.path) = true := BEq.rfl
  obtain ⟨other, first, answers⟩ :=
    Document.find?_of_mem (nested.module found) listed held here rfl rfl
  exact ⟨file, other, same, first, answers⟩

/-- What a file refers to as an expression is one, or is made up. -/
theorem IsNested.cited (nested : project.IsNested) (found : project.file? path = some file)
    {node : Node} (listed : node ∈ file.module.all) {span : Span} (cited : span ∈ node.cited) :
    project.Resolves ⟨file.path, span, .expr⟩ ∨ project.Fabricates ⟨file.path, span, .expr⟩ := by
  have same : project.file? file.path = some file :=
    (file?_congr project (path_of_file? found).1).trans found
  cases node with
  | expr value =>
    obtain rfl := List.mem_singleton.1 cited
    exact .inl (nested.resolves found listed (List.mem_cons_self ..))
  | _ => exact .inr ⟨file, _, same, rfl, listed, cited⟩

end Project

namespace Extraction

/-- A member that an argument is written with is a property of it. -/
theorem mem_all_of_inlineMember? {argument : Expr} {name : String} {member : Member}
    (written : inlineMember? argument name = some member) :
    .member member ∈ (Node.expr argument).all ∧
      (Node.member member).handles = [.property member] := by
  unfold inlineMember? at written
  split at written
  · rename_i span members bare
    have listed : member ∈ members := List.mem_reverse.1 (List.mem_of_find?_eq_some written)
    have inside : .member member ∈ (Node.expr argument.unwrap).all := by
      rw [bare]
      refine Node.mem_all_of_child ?_ (Node.mem_all_self _)
      exact List.mem_map.2 ⟨member, listed, rfl⟩
    have matched := List.find?_some written
    refine ⟨Node.mem_all_trans argument.mem_all_unwrap inside, ?_⟩
    cases member with
    | spread => cases matched
    | _ => rfl
  · cases written

/-- Every question is about a node that can be referred to. -/
theorem Poses.handle {matchers : Matchers} {path : Path} {nodes : List Node} {question : Question}
    {answer : Answer} {place : Reference} (poses : Poses matchers path nodes question answer place) :
    ∃ node ∈ nodes, ∃ inner ∈ node.all, ∃ handle ∈ inner.handles,
      place = ⟨path, handle.span, handle.kind⟩ := by
  have attr : ∀ {opening : Opening} {attr : Attribute}, attr ∈ opening.attributes →
      .attr attr ∈ (Node.opening opening).all := by
    intro opening attr written
    refine Node.mem_all_of_child ?_ (Node.mem_all_self _)
    cases opening
    exact List.mem_append_right _ (List.mem_map.2 ⟨attr, written, rfl⟩)
  have argument : ∀ {site : Call} {argument : Argument}, argument ∈ site.arguments →
      .expr argument.value ∈ (Node.expr (.call site.span site.callee site.arguments)).all := by
    intro site argument among
    refine Node.mem_all_of_child (List.mem_append_right _ ?_) (Node.mem_all_self _)
    exact List.mem_map.2 ⟨argument, among, rfl⟩
  cases poses with
  | tag given listed | entry given listed | default given listed =>
    exact ⟨_, listed, _, Node.mem_all_self _, _, List.mem_cons_self .., rfl⟩
  | named given listed written =>
    exact ⟨_, listed, _, attr written, _, List.mem_cons_self .., rfl⟩
  | call given listed | template given listed =>
    exact ⟨_, listed, _, Node.mem_all_self _, _, List.mem_cons_of_mem _ (List.mem_cons_self ..), rfl⟩
  | argument given listed named placed =>
    exact ⟨_, listed, _, argument (List.mem_of_getElem? placed), _, List.mem_cons_self .., rfl⟩
  | property given listed named among =>
    exact ⟨_, listed, _, argument among, _, List.mem_cons_self .., rfl⟩
  | member given listed named among written =>
    obtain ⟨inside, handles⟩ := mem_all_of_inlineMember? written
    refine ⟨_, listed, _, Node.mem_all_trans (argument among) inside, .property _, ?_, rfl⟩
    rw [handles]
    exact List.mem_cons_self ..

end Extraction

/-- The expression gives a name or an export of the module its value. -/
inductive Scope.States (scope : Scope) (expr : Expr) : Prop where
  | source {id : Id} {value : Variable} (bound : scope.binding? id = some (.variable value))
    (source : expr ∈ value.sources)
  | exported {name : String} (stated : scope.export? name = some (.value expr))

/-- The scope is that of a file of the project. -/
def Project.Collects (project : Project) (scope : Scope) : Prop :=
  ∃ path file, project.file? path = some file ∧ scope = file.scope

section Files

variable {setting : Setting} {path : Path} {file : Document} {expr : Expr}

/-- An expression that a file states is in its module. -/
theorem Document.mem_all_of_states (states : file.scope.States expr) :
    .expr expr ∈ file.module.all := by
  rw [file.scope_eq] at states
  cases states with
  | source bound source => exact Scope.mem_all_of_source bound source
  | exported stated => exact Scope.mem_all_of_export stated

/-- A reference of a file's scope is to an expression in that file. -/
theorem Document.refer_eq (file : Document) (span : Span) :
    file.scope.refer span = ⟨file.path, span, .expr⟩ := by
  rw [Scope.refer, file.scope_eq]
  rfl

/-- A trait that admits what the values of names and exports refer to is kept in all files of the
project, unless overrides bring boxes with them. -/
theorem Setting.houses_of_states {trait : Trait} (free : setting.policy.overrides = none)
    (reasons : ∀ reason, trait.Reasons reason) (splits : trait.Splits)
    (states : ∀ {path file expr}, setting.project.file? path = some file →
      file.scope.States expr → trait.Covers file.scope (.expr expr)) :
    setting.Houses trait setting.project.Collects where
  reasons reason _ := reasons reason
  splits _ := splits
  overrides expr stack overrides brought := by
    simp [Policy.overridesFor, free] at brought
  sources := by
    rintro _ id value ⟨_, file, found, rfl⟩ bound expr source
    exact states found (.source bound source)
  exported := by
    rintro path name expr ⟨_, file, found, same⟩ stated
    rw [same] at stated ⊢
    exact states found (.exported stated)
  targets := by
    intro scope source path _ target
    obtain ⟨file, found⟩ := Option.isSome_iff_exists.1 (setting.isSome_file?_of_target? target)
    refine ⟨path, file, found, ?_⟩
    rw [Project.scope, found]

end Files

/-- Every node in the outcome of an extraction is found again in the file that it names, or it was
made up as an expression for a shorthand, an accessor, a computed key, an attribute without a value
or a literal after an attribute's name. -/
theorem extract_resolves (setting : Setting) (matchers : Matchers) (path : Path)
    (free : setting.policy.overrides = none) (nested : setting.project.IsNested) :
    ∀ place ∈ Extraction.references (Extraction.extract setting matchers path).1,
      setting.project.Resolves place ∨ setting.project.Fabricates place := by
  -- What is said of the references is a trait of boxes: it names the nodes a part may come from.
  let trait : Trait :=
    { Reasons := fun _ => True, Splits := True
      Nodes := fun place => setting.project.Resolves place ∨ setting.project.Fabricates place }
  have covers : ∀ {path file}, setting.project.file? path = some file →
      ∀ node ∈ file.module.all, trait.Covers file.scope node := by
    intro path file found node listed inner inside span cited
    rw [file.refer_eq]
    exact nested.cited found (Module.mem_all_trans listed inside) cited
  have houses : setting.Houses trait setting.project.Collects :=
    Setting.houses_of_states free (fun _ => trivial) trivial fun found states =>
      covers found _ (Document.mem_all_of_states states)
  cases found : setting.project.file? path with
  | none =>
    rw [Extraction.extract, found]
    intro place listed
    cases listed
  | some file =>
    have places : ∀ {question answer node},
        Extraction.Poses matchers file.path file.module.all question answer node →
          trait.Nodes node := by
      intro question answer place poses
      obtain ⟨node, listed, inner, inside, handle, held, rfl⟩ := poses.handle
      exact .inl (nested.resolves found (Module.mem_all_trans listed inside) held)
    cases outcome : (Extraction.extract setting matchers path).1 with
    | ok report =>
      exact (Extraction.report_has_of_houses houses trivial found ⟨path, file, found, rfl⟩
        (covers found) places outcome).nodes
    | error failure =>
      have audit : Extraction.Audit matchers file.path file.module.all _
          (Extraction.extract setting matchers path).1 := Extraction.audit_extract matchers found
      rw [outcome] at audit
      obtain ⟨_, last, cause, node, _, _, poses, rfl⟩ := audit.failure
      intro place listed
      obtain rfl := List.mem_singleton.1 listed
      exact places poses

/-- The nodes of an element with an imported name are found, those of the imported value too. -/
theorem extract_resolves_import :
    let project : Project :=
      (Project.insert {} (Document.make ⟨"/a.tsx"⟩ "" importingElement)).insert
        (Document.make ⟨"/t.ts"⟩ "" statingModule)
    let setting : Setting := { project }
    let matchers : Matchers := { components := some ({} : NameRules).components }
    let references := Extraction.references (Extraction.extract setting matchers ⟨"/a.tsx"⟩).1
    setting.policy.overrides = none ∧ project.IsNested ∧ ⟨⟨"/t.ts"⟩, ⟨18, 21⟩, .expr⟩ ∈ references ∧
      ∀ place ∈ references, project.Resolves place ∨ project.Fabricates place := by
  intro project setting matchers references
  have nested : project.IsNested := by
    unfold Project.IsNested
    decide +kernel
  exact ⟨rfl, nested, by decide +kernel, extract_resolves setting matchers ⟨"/a.tsx"⟩ rfl nested⟩

/-- `const d = <Box a />;` -/
def bareElement : Module :=
  ⟨[.declarations [.mk (.ident ⟨"d", 1⟩) (some (.other ⟨11, 20⟩ "JSXElement"
    [.opening (.mk ⟨11, 20⟩ (.ident ⟨"Box", 2⟩) [.named ⟨16, 17⟩ "a" .missing])]))]]⟩

/-- The value of an attribute that has none is referred to as an expression, which is not found; the
attribute would be. -/
theorem not_extract_resolves_bare :
    let file := Document.make ⟨"/a.tsx"⟩ "" bareElement
    let setting : Setting := { project := Project.insert {} file }
    let matchers : Matchers := { components := some ({} : NameRules).components }
    let place : Reference := ⟨file.path, ⟨16, 17⟩, .expr⟩
    place ∈ Extraction.references (Extraction.extract setting matchers file.path).1 ∧
      file.find? place = none ∧ (file.find? { place with kind := .attr }).isSome := by
  intro file setting matchers place
  have listed : place ∈ Extraction.references (Extraction.extract setting matchers file.path).1 := by
    decide +kernel
  have missing : (file.find? place).isNone := by decide +kernel
  exact ⟨listed, Option.isNone_iff_eq_none.1 missing, by decide +kernel⟩

end Glean
