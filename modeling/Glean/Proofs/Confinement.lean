import Glean.Proofs.Evaluation.Confinement
import Glean.Proofs.Extraction.Boxes
import Glean.Proofs.Failures
import Glean.Proofs.StarExports

/-!
# Extraction that stays in one file

When files are not entered, what is extracted from a file depends on that file alone: the outcome is
the same in every project that holds it. Unless overrides bring boxes with them, every node in the
outcome is one of that file (`extract_confined`).
-/

namespace Glean

open Syntax Box

namespace Extraction

section Congruence

variable {left right : Setting} {file : Document}
  (same : ∀ expr, left.evaluate file.path expr = right.evaluate file.path expr)

include same

/-- An expression is evaluated alike in both settings. -/
theorem evaluate_congr (around : Reference) (expr : Expr) :
    evaluate left file around expr = evaluate right file around expr := by
  rw [evaluate, evaluate, same]

/-- The value of an attribute is the same in both settings. -/
theorem attributeBox_congr (around : Reference) (span : Span) (value : AttributeValue) :
    attributeBox left file around span value = attributeBox right file around span value := by
  cases value <;> simp only [attributeBox, evaluate_congr same]

/-- The same attributes are collected in both settings. -/
theorem addAttributes_congr (matcher : ComponentMatcher) (name : String) (opening : Opening)
    (around : Reference) (collected : Collected) (list : List Attribute) :
    addAttributes left file matcher name opening around collected list =
      addAttributes right file matcher name opening around collected list := by
  induction list generalizing collected with
  | nil => rfl
  | cons first rest ih =>
    have added : addAttribute left file matcher name opening around collected first =
        addAttribute right file matcher name opening around collected first := by
      cases first <;> simp only [addAttribute, attributeBox_congr same, evaluate_congr same]
    simp only [addAttributes, added, ih]

/-- The arguments of a call are the same in both settings. -/
theorem arguments_congr (matcher : FunctionMatcher) (name : String) (site : Call)
    (around : Reference) (index : Nat) (list : List Argument) :
    arguments left file matcher name site around index list =
      arguments right file matcher name site around index list := by
  induction list generalizing index with
  | nil => rfl
  | cons first rest ih => simp only [arguments, evaluate_congr same, ih]

/-- The instance at a node is the same in both settings. -/
theorem ofNode_congr (matchers : Matchers) (node : Node) :
    ofNode left matchers file node = ofNode right matchers file node := by
  unfold ofNode
  split
  · simp only [component, addAttributes_congr same]
  · simp only [call, arguments_congr same]
  · simp only [template, evaluate_congr same]
  · rfl

/-- Extraction depends on the setting through the evaluation of the file's expressions alone. -/
theorem ofNodes_congr (matchers : Matchers) (list : List Node) :
    ofNodes left matchers file list = ofNodes right matchers file list := by
  induction list with
  | nil => rfl
  | cons first rest ih => simp only [ofNodes, ofNode_congr same, ih]

end Congruence

/-- The nodes in the outcome of an extraction. -/
def references : Except Failure Report → List Reference
  | .ok report => report.references
  | .error (.matcher _ _ node _) => [node]
  | .error (.notFound _) => []

/-- Every question is about a node of the file that is extracted. -/
theorem Poses.file {matchers : Matchers} {path : Path} {nodes : List Node} {question : Question}
    {answer : Answer} {node : Reference} (poses : Poses matchers path nodes question answer node) :
    node.file = path := by
  cases poses <;> rfl

end Extraction

/-- When files are not entered, the outcome for a file is the same in every project that holds it.
Unless overrides bring boxes with them, every node in it is one of the file. -/
theorem extract_confined (policy : Policy) (matchers : Matchers) (project other : Project)
    (path : Path) (file : Document) (skips : policy.flags.skipFiles = true)
    (found : project.file? path = some file) (foundOther : other.file? path = some file) :
    let setting : Setting := { project, policy }
    let result := Extraction.extract setting matchers path
    result = Extraction.extract { project := other, policy } matchers path ∧
      (policy.overrides = none →
        ∀ place ∈ Extraction.references result.1, place.file = file.path) := by
  intro setting result
  have samePath := (Project.path_of_file? found).1
  have present : project.file? file.path = some file :=
    (project.file?_congr samePath).trans found
  have presentOther : other.file? file.path = some file :=
    (other.file?_congr samePath).trans foundOther
  constructor
  · have same := Setting.evaluate_confined skips present presentOther
    have foundHere : setting.project.file? path = some file := found
    have foundThere : (Setting.mk other policy).project.file? path = some file := foundOther
    simp only [result, Extraction.extract_eq matchers foundHere,
      Extraction.extract_eq matchers foundThere, setting, Extraction.ofNodes_congr same matchers]
  · intro bare
    let trait : Trait :=
      { Reasons := fun _ => True, Splits := True, Nodes := fun place => place.file = file.path }
    have admits : setting.Admits trait :=
      { reasons := fun _ _ => trivial
        splits := fun _ => trivial
        overrides := fun expr stack overrides brought => by
          simp [setting, Policy.overridesFor, bare] at brought
        targets := fun _ target => by simp [setting, Setting.target?, skips] at target }
    have refers : trait.Refers file.scope := by
      intro span
      simp only [trait, Scope.refer, file.scope_eq]
      rfl
    cases outcome : result.1 with
    | ok report =>
      exact (Extraction.report_has admits trivial found refers (fun poses => poses.file)
        outcome).nodes
    | error failure =>
      have audit : Extraction.Audit matchers file.path file.module.all _ result.1 :=
        Extraction.audit_extract matchers found
      rw [outcome] at audit
      obtain ⟨_, last, cause, node, _, _, poses, rfl⟩ := audit.failure
      intro place listed
      obtain rfl := List.mem_singleton.1 listed
      exact poses.file

/-- `import { n } from "./t"; <Box a={n} />;` -/
def importingElement : Module :=
  ⟨[.importFrom "./t" false [.named ⟨"n", 1⟩ none],
    .expr (.other ⟨26, 39⟩ "JSXElement" [.opening (.mk ⟨26, 39⟩ (.ident ⟨"Box", 2⟩)
      [.named ⟨31, 36⟩ "a" (.expr (.ident ⟨34, 35⟩ ⟨"n", 1⟩))])])]⟩

/-- Whether the imported file is there makes no difference when it is not entered. -/
theorem extract_confined_import :
    let file := Document.make ⟨"/a.tsx"⟩ "" importingElement
    let project := (Project.insert {} file).insert (Document.make ⟨"/t.ts"⟩ "" statingModule)
    let other := Project.insert {} file
    let policy : Policy := { flags := { skipFiles := true } }
    let matchers : Matchers := { components := some ({} : NameRules).components }
    let result := Extraction.extract { project, policy } matchers file.path
    policy.flags.skipFiles = true ∧ project.file? file.path = some file ∧
      other.file? file.path = some file ∧ policy.overrides = none ∧
      Extraction.references result.1 ≠ [] ∧
      result = Extraction.extract { project := other, policy } matchers file.path ∧
      ∀ place ∈ Extraction.references result.1, place.file = file.path := by
  intro file project other policy matchers result
  have foundOther : other.file? file.path = some file := Project.file?_insert {} file
  have found : project.file? file.path = some file :=
    (Project.file?_insert_of_ne _ _ (by simp only [Document.make]; decide +kernel)).trans foundOther
  obtain ⟨same, within⟩ :=
    extract_confined policy matchers project other file.path file rfl found foundOther
  exact ⟨rfl, found, foundOther, rfl, by decide +kernel, same, within rfl⟩

end Glean
