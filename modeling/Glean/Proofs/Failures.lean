import Glean.Proofs.Evaluation.Termination
import Glean.Proofs.Extraction.Logic

/-!
# Failures of matchers

The first question that a matcher fails on is the last one that is asked about a file, and the file
has no report. Every other extraction of a file ends with a report (`extract_stops_at_failure`).
-/

namespace Glean

open Syntax Box

namespace Matchers

/-- The answer to a question, if there is a matcher for it. -/
def answer? (matchers : Matchers) : Question → Option Answer
  | .tag question => matchers.components.map (·.tag question)
  | .attr question => matchers.components.map (·.property question)
  | .call question => matchers.functions.map (·.call question)
  | .argument question => matchers.functions.map (·.argument question)
  | .property question => matchers.functions.map (·.property question)
  | .template question => matchers.templates.map (·.template question)

/-- Why a matcher fails on a question, if it does. -/
def cause? (matchers : Matchers) (question : Question) : Option String :=
  match matchers.answer? question with
  | some (.error cause) => some cause
  | _ => none

end Matchers

namespace Extraction

variable {matchers : Matchers} {path : Path} {nodes : List Node} {question : Question}
  {answer : Answer} {node : Reference} {α : Type}

/-- A question that is posed has the answer of the matcher for it. -/
theorem Poses.answer? (poses : Poses matchers path nodes question answer node) :
    matchers.answer? question = some answer := by
  cases poses <;> simp_all [Matchers.answer?]

/-- What comes of asking questions: all are answered, or the last one is the first failure. -/
inductive Audit (matchers : Matchers) (path : Path) (nodes : List Node) :
    List Question → Except Failure α → Prop where
  | answered {asked : List Question} {value : α}
    (all : ∀ question ∈ asked, matchers.cause? question = none) :
    Audit matchers path nodes asked (.ok value)
  | failed {before : List Question} {last : Question} {cause : String} {node : Reference}
    (all : ∀ question ∈ before, matchers.cause? question = none)
    (poses : Poses matchers path nodes last (.error cause) node) :
    Audit matchers path nodes (before ++ [last]) (.error (.matcher last.predicate path node cause))

/-- Questions that were answered before do not change what comes of asking. -/
theorem Audit.append {earlier asked : List Question} {result : Except Failure α}
    (answered : ∀ question ∈ earlier, matchers.cause? question = none)
    (audit : Audit matchers path nodes asked result) :
    Audit matchers path nodes (earlier ++ asked) result := by
  have both : ∀ {later : List Question}, (∀ question ∈ later, matchers.cause? question = none) →
      ∀ question ∈ earlier ++ later, matchers.cause? question = none :=
    fun others question listed =>
      (List.mem_append.1 listed).elim (answered question) (others question)
  cases audit with
  | answered all => exact .answered (both all)
  | @failed before last cause node all poses =>
    rw [← List.append_assoc]
    exact .failed (both all) poses

/-- An audit holds of a changed result as well. -/
theorem Audit.map {β : Type} {asked : List Question} {result : Except Failure α} (change : α → β)
    (audit : Audit matchers path nodes asked result) :
    Audit matchers path nodes asked (result.map change) := by
  cases audit with
  | answered all => exact .answered all
  | failed all poses => exact .failed all poses

/-- There is a value exactly when no question failed. -/
theorem Audit.ok_iff {asked : List Question} {result : Except Failure α}
    (audit : Audit matchers path nodes asked result) :
    (∃ value, result = .ok value) ↔ ∀ question ∈ asked, matchers.cause? question = none := by
  cases audit with
  | answered all => exact ⟨fun _ => all, fun _ => ⟨_, rfl⟩⟩
  | @failed before last cause node all poses =>
    have fails : matchers.cause? last = some cause := by
      simp [Matchers.cause?, poses.answer?]
    constructor
    · rintro ⟨_, ⟨⟩⟩
    · intro none
      have answered := none last (List.mem_append_right _ (List.mem_singleton_self _))
      exact absurd (answered.symm.trans fails) nofun

/-- A failure is that of the last question, on which a matcher failed. -/
theorem Audit.failure {asked : List Question} {failure : Failure}
    (audit : Audit matchers path nodes asked (.error failure : Except Failure α)) :
    ∃ before last cause node, asked = before ++ [last] ∧
      (∀ question ∈ before, matchers.cause? question = none) ∧
      Poses matchers path nodes last (.error cause) node ∧
      failure = .matcher last.predicate path node cause := by
  cases audit with
  | failed all poses => exact ⟨_, _, _, _, rfl, all, poses, rfl⟩

/-- Computations that end with the first failure. -/
def auditing (matchers : Matchers) (path : Path) (nodes : List Node) : Extract.Logic where
  Holds expected computation := ∀ run, ∃ asked,
    (computation.run.run run).2.questions = run.questions ++ asked ∧
      Audit matchers path nodes asked (computation.run.run run).1 ∧
      ∀ value, (computation.run.run run).1 = .ok value → expected value
  pure held run := by
    have same : run.questions = run.questions ++ [] := (List.append_nil _).symm
    exact ⟨[], same, .answered nofun, fun _ equal => Except.ok.inj equal ▸ held⟩
  bind := by
    intro α β expected after computation next first rest run
    obtain ⟨asked, questions, audit, comes⟩ := first run
    rw [Extract.run_bind]
    split
    · rename_i value middle ended
      rw [ended] at questions audit comes
      obtain ⟨others, questionsNext, auditNext, comesNext⟩ := rest value (comes value rfl) middle
      have answered : ∀ question ∈ asked, matchers.cause? question = none := by
        cases audit with
        | answered all => exact all
      refine ⟨asked ++ others, ?_, auditNext.append answered, comesNext⟩
      rw [questionsNext, questions, List.append_assoc]
    · rename_i failure middle ended
      rw [ended] at questions audit
      cases audit with
      | failed all poses => exact ⟨_, questions, .failed all poses, nofun⟩

/-- A question is answered, or it is the failure. -/
theorem auditing_ask {file : Document}
    (poses : Poses matchers file.path nodes question answer node) :
    (auditing matchers file.path nodes).Holds (fun _ => True) (ask file question answer) := by
  intro run
  have answered := poses.answer?
  have recorded := run.questions_question question
  cases answer with
  | ok value =>
    have all : ∀ other ∈ [question], matchers.cause? other = none := by
      intro other listed
      obtain rfl := List.mem_singleton.1 listed
      simp [Matchers.cause?, answered]
    exact ⟨[question], recorded, .answered all, fun _ _ => trivial⟩
  | error cause =>
    have none : ∀ other ∈ ([] : List Question), matchers.cause? other = none := nofun
    refine ⟨[question], recorded, ?_, nofun⟩
    have failed : Audit matchers file.path nodes [question]
        (.error (.matcher question.predicate file.path node cause) : Except Failure Bool) :=
      .failed none poses
    rw [← poses.subject] at failed
    exact failed

/-- An evaluation asks no matcher. -/
theorem auditing_evaluate (setting : Setting) {file : Document} (around : Reference) (expr : Expr) :
    (auditing matchers file.path nodes).Holds (Has .any) (evaluate setting file around expr) := by
  intro run
  obtain ⟨place, strangers, box, after, _, _, evaluated, returns, _⟩ :=
    setting.evaluate_spec file.path { run with stack := around :: run.stack } expr
  rw [evaluate_run, evaluated]
  have questions : after.questions = run.questions ++ [] := by
    rw [List.append_nil]
    exact returns.questions
  exact ⟨[], questions, .answered nofun, fun box _ => box.has_any⟩

/-- Extraction ends with the first failure. -/
theorem allows_auditing (setting : Setting) (matchers : Matchers) (file : Document)
    (nodes : List Node) :
    Allows (auditing matchers file.path nodes) setting matchers file nodes .any where
  asks poses := auditing_ask poses
  evaluates _ _ := auditing_evaluate setting _ _
  places _ := trivial
  reasons _ _ := trivial

/-- The outcome for a file is what comes of the questions asked about it. -/
theorem audit_extract {setting : Setting} (matchers : Matchers) {file : Document}
    (found : setting.project.file? path = some file) :
    let result := extract setting matchers path
    Audit matchers file.path file.module.all result.2.questions result.1 := by
  obtain ⟨asked, recorded, audit, _⟩ :=
    (allows_auditing setting matchers file file.module.all).ofNodes_holds file.module.all
      (fun _ listed => listed) {}
  have questions : (extract setting matchers path).2.questions = asked := by
    rw [extract_eq matchers found]
    exact recorded
  have outcome := audit.map Report.ofList
  rw [← questions] at outcome
  rw [extract_eq matchers found] at outcome ⊢
  exact outcome

end Extraction

/-- The extraction of a file has a report exactly when no matcher fails on a question. Otherwise the
first question that one fails on is the last one, and the failure names its predicate, the file, the
node that it is about and the cause. -/
theorem extract_stops_at_failure (setting : Setting) (matchers : Matchers) (path : Path)
    (file : Document) (found : setting.project.file? path = some file) :
    let result := Extraction.extract setting matchers path
    let asked := result.2.questions
    ((∃ report, result.1 = .ok report) ↔
      ∀ question ∈ asked, matchers.cause? question = none) ∧
    ∀ failure, result.1 = .error failure → ∃ before last cause node,
      asked = before ++ [last] ∧ (∀ question ∈ before, matchers.cause? question = none) ∧
      Extraction.Poses matchers file.path file.module.all last (.error cause) node ∧
      failure = .matcher last.predicate file.path node cause := by
  intro result asked
  have audit : Extraction.Audit matchers file.path file.module.all asked result.1 :=
    Extraction.audit_extract matchers found
  refine ⟨audit.ok_iff, fun failure failed => ?_⟩
  rw [failed] at audit
  exact audit.failure

/-- `<Box {...{ a: "x" }} />; <Box />;` -/
def twoElements : Module :=
  ⟨[.expr (.other ⟨1, 24⟩ "JSXElement" [.opening (.mk ⟨1, 24⟩ (.ident ⟨"Box", 1⟩)
      [.spread ⟨7, 20⟩ (.object ⟨10, 20⟩
        [.keyed ⟨12, 18⟩ (.name "a") (.literal ⟨15, 18⟩ (.string "x"))])])]),
    .expr (.other ⟨26, 33⟩ "JSXElement" [.opening (.mk ⟨26, 33⟩ (.ident ⟨"Box", 1⟩) [])])]⟩

/-- A matcher that fails on the entry of a spread attribute fails on the element, and the element
after it is not asked about. -/
theorem extract_stops_at_spread :
    let file := Document.make ⟨"/a.tsx"⟩ "" twoElements
    let setting : Setting := { project := Project.insert {} file }
    let matcher : ComponentMatcher := { tag := fun _ => .ok true, property := fun _ => .error "no" }
    let matchers : Matchers := { components := some matcher }
    let result := Extraction.extract setting matchers file.path
    let asked := result.2.questions
    setting.project.file? file.path = some file ∧
      result.1.isOk = false ∧ asked.map Question.predicate = ["match_tag", "match_prop"] ∧
      (((∃ report, result.1 = .ok report) ↔
        ∀ question ∈ asked, matchers.cause? question = none) ∧
      ∀ failure, result.1 = .error failure → ∃ before last cause node,
        asked = before ++ [last] ∧ (∀ question ∈ before, matchers.cause? question = none) ∧
        Extraction.Poses matchers file.path file.module.all last (.error cause) node ∧
        failure = .matcher last.predicate file.path node cause) := by
  intro file setting matcher matchers result asked
  have found : setting.project.file? file.path = some file := Project.file?_insert {} file
  exact ⟨found, by decide +kernel, by decide +kernel,
    extract_stops_at_failure setting matchers file.path file found⟩

end Glean
