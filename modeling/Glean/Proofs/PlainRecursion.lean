import Glean.Proofs.Evaluation.Traits
import Glean.Proofs.Evaluation.Transparency

/-!
# Plain recursion

Without a memory, evaluation is plain recursion: a value is worked out whenever it is asked for, and
an expression that depends on itself has no end. Evaluation with a memory refines it. Where plain
recursion ends, so does evaluation, whatever was evaluated before, with an equal box; nothing is
taken for a cycle on the way, and no part of the box is unknown because of one
(`evaluate_refines_plain`).
-/

namespace Glean

open Syntax Box

namespace Setting

variable {setting : Setting}

/-- Evaluates an expression by plain recursion in at most `fuel` nested steps. What was evaluated
before decides no more than in which form the path of a missing file is kept. -/
def evaluatePlain? (setting : Setting) (fuel : Nat) (path : Path) (expr : Expr) (before : Run) :
    Option Box :=
  let scope := ((setting.scopeAt path).run before).1
  ((Evaluation.run setting Guard.plain fuel (.expr scope expr)).run {}).map Prod.fst

/-- An evaluation leaves an idle state, also at a path without a file. -/
theorem Idle.evaluate {run : Run} (idle : setting.Idle run) (path : Path) (expr : Expr) :
    setting.Idle ((setting.evaluate path expr).run run).2 := by
  obtain ⟨place, strangers, value, final, _, _, evaluated, returns, ends⟩ :=
    setting.evaluate_spec path run expr
  have within : (Task.expr (setting.project.scope place) expr).Within setting.project :=
    ⟨place, rfl⟩
  obtain ⟨box, after, _, endsUncached⟩ := Evaluation.run_ends false within {}
  have uncached := endsUncached _ (setting.depth_le_fuel (setting.project.scope place) expr [])
  have reached := (idle.strangers strangers).run within returns uncached (ends _ (Nat.le_refl _))
  rw [evaluated]
  exact reached.2.2

/-- A sequence of evaluations leaves an idle state. -/
theorem Idle.evaluateAll {run : Run} (idle : setting.Idle run) (calls : List (Path × Expr)) :
    setting.Idle ((setting.evaluateAll calls).run run).2 := by
  induction calls generalizing run with
  | nil => exact idle
  | cons call rest ih =>
    obtain ⟨path, expr⟩ := call
    have others := ih (idle.evaluate path expr)
    rw [Setting.evaluateAll, List.mapM_cons]
    exact others

/-- Where plain recursion ends, an evaluation from an idle state comes to an alike box and meets no
cycle. -/
theorem Idle.evaluate_of_plain {run : Run} (idle : setting.Idle run)
    (calm : setting.policy.isStackSensitive = false) {fuel : Nat} {path : Path} {expr : Expr}
    {box : Box} (plain : setting.evaluatePlain? fuel path expr run = some box) :
    Alike .blind box ((setting.evaluate path expr).run run).1 ∧
      ((setting.evaluate path expr).run run).2.cycles = run.cycles := by
  obtain ⟨place, strangers, value, final, _, found, evaluated, _, ends⟩ :=
    setting.evaluate_spec path run expr
  have within : (Task.expr (setting.project.scope place) expr).Within setting.project :=
    ⟨place, rfl⟩
  rw [evaluatePlain?, found] at plain
  obtain ⟨⟨_, after⟩, recursed, rfl⟩ := Option.map_eq_some_iff.1 plain
  have corresponds : Run.Corresponds setting.policy
      (fun _ memory => Evaluation.Trusted setting [] run.cycles memory) {} { run with strangers } :=
    .of_calm calm rfl idle.overrides ⟨idle.inProgress, rfl, idle.sound calm⟩
  have unsettled : Evaluation.Unsettled setting fuel [] :=
    fun _ entered => absurd entered List.not_mem_nil
  obtain ⟨other, last, otherEnds, reached, alike⟩ :=
    (Evaluation.remembering_of_plain (!setting.policy.isStackSensitive) calm (.refl _) within
      unsettled).elim corresponds recursed
  have free : setting.policy.isStackSensitive = false →
      Run.overrides { run with strangers } = [] := fun _ => idle.overrides
  obtain ⟨rfl, memory⟩ := Evaluation.run_unique free otherEnds (ends _ (Nat.le_refl _))
  have cycles : last.cycles = final.cycles := congrArg Memory.cycles memory
  rw [evaluated]
  exact ⟨alike, cycles.symm.trans reached.memories.2.1⟩

/-- Plain recursion never takes anything for a cycle. -/
theorem reasons_of_plain {fuel : Nat} {path : Path} {expr : Expr} {run : Run} {box : Box}
    (bare : setting.policy.overrides = none)
    (plain : setting.evaluatePlain? fuel path expr run = some box) :
    ∀ leaf ∈ box.unresolvables, leaf.1 ≠ .cycle := by
  let acyclic : Trait := { Reasons := (· ≠ .cycle), Splits := True }
  have admits : setting.Admits acyclic :=
    { reasons := fun _ other => other
      splits := fun _ => trivial
      overrides := fun expr stack overrides brought => by
        simp [Policy.overridesFor, bare] at brought
      targets := fun _ _ _ => trivial }
  have start : Run.Has acyclic {} :=
    ⟨fun _ listed => absurd listed List.not_mem_nil, fun _ listed => absurd listed List.not_mem_nil⟩
  obtain ⟨⟨_, after⟩, recursed, rfl⟩ := Option.map_eq_some_iff.1 plain
  have sits : Task.Sits setting acyclic (.expr ((setting.scopeAt path).run run).1 expr) :=
    fun _ => trivial
  exact ((Evaluation.plain_yields admits fuel _ sits).ends start recursed).2.reasons

end Setting

/-- Where plain recursion ends, an evaluation comes to an equal box, whatever was evaluated before.
It meets no cycle, and no part of the box is unknown because of one. -/
theorem evaluate_refines_plain (project : Project) (flags : Flags) (calls : List (Path × Expr))
    (path : Path) (expr : Expr) (fuel : Nat) (box : Box) :
    let setting : Setting := { project, policy := { flags } }
    let before := ((setting.evaluateAll calls).run {}).2
    let result := (setting.evaluate path expr).run before
    setting.evaluatePlain? fuel path expr before = some box →
    result.1 == box ∧ result.2.cycles = before.cycles ∧
      ∀ leaf ∈ result.1.unresolvables, leaf.1 ≠ .cycle := by
  intro setting before result plain
  have idle : setting.Idle before := (setting.idle_start []).evaluateAll calls
  obtain ⟨alike, cycles⟩ := idle.evaluate_of_plain rfl plain
  have equal : (result.1 == box) = true := alike.symm.beq
  refine ⟨equal, cycles, fun leaf found => ?_⟩
  have reason : leaf.1 ∈ box.unresolvables.map Prod.fst :=
    reasons_of_same equal ▸ List.mem_map.2 ⟨leaf, found, rfl⟩
  obtain ⟨other, listed, same⟩ := List.mem_map.1 reason
  exact same ▸ Setting.reasons_of_plain rfl plain other listed

/-- Two declarations that take their values from each other, and one with a value. -/
def partlyCircularModule : Module :=
  ⟨[.declarations [.mk (.ident ⟨"first", 0⟩) (some (.ident ⟨21, 27⟩ ⟨"second", 0⟩)),
    .mk (.ident ⟨"second", 0⟩) (some (.ident ⟨38, 43⟩ ⟨"first", 0⟩)),
    .mk (.ident ⟨"third", 0⟩) (some (.literal ⟨53, 56⟩ (.string "x")))]]⟩

/-- A name that is used twice after a cycle was met comes to its value, and no cycle is met. -/
theorem evaluate_refines_plain_after_cycle :
    let file := Document.make ⟨"/a.ts"⟩ "" partlyCircularModule
    let setting : Setting := { project := Project.insert {} file }
    let name (text : String) : Expr := .ident default ⟨text, 0⟩
    let expr : Expr := .array default [some (.single (name "third")), some (.single (name "third"))]
    let before := ((setting.evaluateAll [(file.path, name "first")]).run {}).2
    let result := (setting.evaluate file.path expr).run before
    before.cycles = 1 ∧ ∃ box, setting.evaluatePlain? 4 file.path expr before = some box ∧
      (result.1 == box ∧ result.2.cycles = before.cycles ∧
        ∀ leaf ∈ result.1.unresolvables, leaf.1 ≠ .cycle) := by
  intro file setting name expr before result
  let value : Box := .text "x" (some ⟨file.path, ⟨53, 56⟩, .expr⟩)
  let box : Box := .list [value, value] (some ⟨file.path, default, .expr⟩)
  have cycles : ((setting.evaluateAll [(file.path, name "first")]).run {}).2.cycles = 1 := by decide +kernel
  have recursed : setting.evaluatePlain? 4 file.path expr before = some box := by decide +kernel
  exact ⟨cycles, box, recursed,
    evaluate_refines_plain (Project.insert {} file) {} [(file.path, name "first")] file.path expr 4
      box recursed⟩

end Glean
