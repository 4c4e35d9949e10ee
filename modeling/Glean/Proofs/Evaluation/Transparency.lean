import Glean.Proofs.Box.Equality
import Glean.Proofs.Evaluation.Remembering
import Glean.Proofs.Evaluation.Termination

/-!
# Evaluations do not influence each other

Between evaluations the working state is idle (`Setting.Idle`): nothing is in progress, around or in
force, and what is known is what its goals settle to; under a policy that sees the nodes around an
expression nothing is known at all. An evaluation from an idle state leaves an idle state and comes
to a box equal to the one from the state without any history (`evaluate_idle`), so a sequence of
evaluations gives what each of them gives alone (`evaluateAll_transparent`).
-/

namespace Glean

open Syntax Box

variable {setting : Setting}

namespace Evaluation

/-- Two memories with the same goals in progress and nothing known. -/
def Forgetful (left right : Memory) : Prop :=
  left.inProgress = right.inProgress ∧ left.known = [] ∧ right.known = []

/-- While nothing is known or kept, the number of cycles met before makes no difference. -/
theorem uncached_of_uncached {fuel : Nat} {task twin : Task}
    (same : task.Alike setting .full twin) :
    (Comparison.simulation setting.policy .full Memory.never Forgetful).Gives
      (run setting (.remembering false) fuel task) (run setting (.remembering false) fuel twin) := by
  induction fuel generalizing task twin with
  | zero => exact .of_failure _
  | succ fuel ih =>
    have body := Comparison.step_related
      (Comparison.simulation setting.policy .full Memory.never Forgetful)
      same fun part other _ alike => ih alike
    have node : task.node = twin.node := Option.some_inj.1 same.node
    rw [run, step_eq, step_eq setting _ _ twin, ← same.goal?, ← node]
    cases task.goal? setting with
    | none => exact body
    | some goal =>
      refine .of_ends fun {left right _ _} corresponds ended => ?_
      obtain ⟨goals, empty, emptyTwin⟩ := corresponds.memories
      have goals : left.inProgress = right.inProgress := goals
      have unknown : right.known.lookup goal = none := by
        rw [show right.known = [] from emptyTwin]
        rfl
      -- Nothing is known, so a goal is either in progress on both sides or begun on both.
      rcases Eval.remembering_cases ended with ⟨known, _⟩ | ⟨_, found, rfl, rfl⟩ |
        ⟨_, fresh, middle, begunEnds, rfl⟩
      · rw [show left.known = [] from empty] at known
        cases known
      · exact ⟨_, _, Eval.remembering_cycle unknown (goals ▸ found),
          ⟨⟨goals, empty, emptyTwin⟩, corresponds.stack, corresponds.overrides, corresponds.free⟩,
          rfl⟩
      · have begun : (left.begin goal).Corresponds setting.policy Forgetful (right.begin goal) :=
          ⟨⟨congrArg (goal :: ·) goals, empty, emptyTwin⟩, corresponds.stack,
            corresponds.overrides, corresponds.free⟩
        obtain ⟨value, final, finalEnds, after, alike⟩ := body.elim begun begunEnds
        refine ⟨value, _, Eval.remembering_begin unknown (goals ▸ fresh) finalEnds,
          ⟨?_, after.stack, after.overrides, after.free⟩, alike⟩
        obtain ⟨goals, empty, emptyTwin⟩ := after.memories
        refine ⟨congrArg (·.erase goal) goals, ?_, ?_⟩
        · simpa [Run.memory, Run.finish] using empty
        · simpa [Run.memory, Run.finish] using emptyTwin

end Evaluation

namespace Setting

/-- A state between evaluations. -/
structure Idle (setting : Setting) (run : Run) : Prop where
  inProgress : run.inProgress = []
  stack : run.stack = []
  overrides : run.overrides = []
  sound : setting.policy.isStackSensitive = false → setting.Sound run.known
  unknown : setting.policy.isStackSensitive = true → run.known = []

/-- Before the first evaluation the state is idle. -/
theorem idle_start (setting : Setting) (strangers : List Path) : setting.Idle { strangers } :=
  ⟨rfl, rfl, rfl, fun _ => .nil, fun _ => rfl⟩

/-- A state is idle whatever strangers it lists. -/
theorem Idle.strangers {run : Run} (idle : setting.Idle run) (strangers : List Path) :
    setting.Idle { run with strangers } :=
  ⟨idle.inProgress, idle.stack, idle.overrides, idle.sound, idle.unknown⟩

/-- A state in which nothing is under way or in force and what is known can be trusted. -/
structure Ready (setting : Setting) (run : Run) : Prop where
  inProgress : run.inProgress = []
  overrides : run.overrides = []
  sound : setting.Sound run.known

/-- Before the first evaluation the state is ready. -/
theorem ready_start (setting : Setting) : setting.Ready {} := ⟨rfl, rfl, .nil⟩

/-- Under a calm policy, a run from a ready state comes to the box of the run that starts with
nothing and keeps nothing. -/
theorem Ready.run {run after final : Run} {fuel : Nat} {task : Task} {box value : Box}
    (ready : setting.Ready run) (calm : setting.policy.isStackSensitive = false)
    (within : task.Within setting.project)
    (plain : Evaluation.run setting (.remembering false) fuel task {} = some (box, after))
    (ended : Evaluation.run setting setting.guard fuel task run = some (value, final)) :
    Alike .blind box value ∧ setting.Sound final.known := by
  have corresponds :
      Run.Corresponds setting.policy (Evaluation.Paired setting [] run.cycles) {} run :=
    .of_calm calm rfl ready.overrides
      ⟨rfl, rfl, (Nat.zero_add _).symm, ready.inProgress, ready.sound⟩
  have unsettled : ∀ fuel, Evaluation.Unsettled setting fuel [] :=
    fun _ _ found => absurd found List.not_mem_nil
  obtain ⟨other, last, otherEnds, lastCorresponds, alike⟩ :=
    (Evaluation.remembering_of_uncached _ calm (.refl task) within unsettled).elim corresponds plain
  obtain ⟨rfl, rfl⟩ := Prod.mk.inj (Option.some_inj.1 (otherEnds.symm.trans ended))
  exact ⟨alike, lastCorresponds.memories.2.2.2.2⟩

/-- Under a policy that sees the nodes around an expression, runs from corresponding states in which
nothing is known come to the very same box. -/
theorem run_of_sensitive {run twin after final : Run} {fuel : Nat} {task : Task} {box value : Box}
    (sensitive : setting.policy.isStackSensitive = true)
    (corresponds : run.Corresponds setting.policy Evaluation.Forgetful twin)
    (ended : Evaluation.run setting setting.guard fuel task run = some (box, after))
    (endedTwin : Evaluation.run setting setting.guard fuel task twin = some (value, final)) :
    box = value ∧ after.known = [] ∧ final.known = [] := by
  have forgets : setting.guard = .remembering false := by simp [guard, sensitive]
  rw [forgets] at ended endedTwin
  obtain ⟨other, last, otherEnds, lastCorresponds, alike⟩ :=
    (Evaluation.uncached_of_uncached (.refl task)).elim corresponds ended
  obtain ⟨rfl, rfl⟩ := Prod.mk.inj (Option.some_inj.1 (otherEnds.symm.trans endedTwin))
  exact ⟨alike_full.1 alike, lastCorresponds.memories.2⟩

/-- A run from an idle state comes to the box of the run that starts with nothing and keeps nothing,
and the state after it is idle. -/
theorem Idle.run {run after final : Run} {fuel : Nat} {task : Task} {box value : Box}
    (idle : setting.Idle run) (within : task.Within setting.project)
    (returns : run.Returns final)
    (plain : Evaluation.run setting (.remembering false) fuel task {} = some (box, after))
    (ended : Evaluation.run setting setting.guard fuel task run = some (value, final)) :
    Alike .blind box value ∧ (setting.policy.isStackSensitive = true → box = value) ∧
      setting.Idle final := by
  have inProgress := returns.inProgress.trans idle.inProgress
  have stack := returns.stack.trans idle.stack
  have overrides := returns.overrides.trans idle.overrides
  cases sensitive : setting.policy.isStackSensitive with
  | false =>
    have ready : setting.Ready run := ⟨idle.inProgress, idle.overrides, idle.sound sensitive⟩
    obtain ⟨alike, sound⟩ := ready.run sensitive within plain ended
    have calm : false ≠ true := Bool.false_ne_true
    exact ⟨alike, fun other => absurd other calm, inProgress, stack, overrides, fun _ => sound,
      fun other => absurd (sensitive.symm.trans other) calm⟩
  | true =>
    have corresponds : Run.Corresponds setting.policy Evaluation.Forgetful {} run :=
      ⟨⟨idle.inProgress.symm, rfl, idle.unknown sensitive⟩, fun _ => idle.stack.symm,
        idle.overrides.symm, fun _ => rfl⟩
    have forgets : Guard.remembering false = setting.guard := by simp [guard, sensitive]
    rw [forgets] at plain
    obtain ⟨same, _, unknown⟩ := run_of_sensitive sensitive corresponds plain ended
    exact ⟨same ▸ .refl _, fun _ => same, inProgress, stack, overrides,
      fun calm => absurd (calm.symm.trans sensitive) Bool.false_ne_true, fun _ => unknown⟩

/-- An evaluation from an idle state leaves one, and comes to the box of the run that starts with
nothing and keeps nothing. -/
theorem evaluate_uncached {run : Run} (idle : setting.Idle run) {path : Path}
    (found : (setting.project.file? path).isSome) (expr : Expr) :
    ∃ box after, Evaluation.run setting (.remembering false) (setting.fuel expr)
        (.expr (setting.project.scope path) expr) {} = some (box, after) ∧
      Alike .blind box ((setting.evaluate path expr).run run).1 ∧
      (setting.policy.isStackSensitive = true → box = ((setting.evaluate path expr).run run).1) ∧
      setting.Idle ((setting.evaluate path expr).run run).2 := by
  obtain ⟨place, strangers, value, final, same, _, evaluated, returns, ends⟩ :=
    setting.evaluate_spec path run expr
  rw [(Project.scope_congr found same.symm).symm] at ends
  have within : (Task.expr (setting.project.scope path) expr).Within setting.project := ⟨path, rfl⟩
  obtain ⟨box, after, _, endsUncached⟩ := Evaluation.run_ends false within {}
  have uncached := endsUncached _ (setting.depth_le_fuel (setting.project.scope path) expr [])
  have reached := (idle.strangers strangers).run within returns uncached (ends _ (Nat.le_refl _))
  rw [evaluated]
  exact ⟨box, after, uncached, reached⟩

/-- An evaluation from an idle state leaves one, and its box is equal to that of the first
evaluation of all. -/
theorem evaluate_idle {run : Run} (idle : setting.Idle run) {path : Path}
    (found : (setting.project.file? path).isSome) (expr : Expr) :
    setting.Idle ((setting.evaluate path expr).run run).2 ∧
      (((setting.evaluate path expr).run run).1 ==
        ((setting.evaluate path expr).run {}).1) = true := by
  obtain ⟨box, after, uncached, alike, _, idleAfter⟩ := evaluate_uncached idle found expr
  obtain ⟨first, _, uncachedFirst, alikeFirst, _, _⟩ :=
    evaluate_uncached (setting.idle_start []) found expr
  obtain ⟨rfl, _⟩ := Prod.mk.inj (Option.some_inj.1 (uncached.symm.trans uncachedFirst))
  exact ⟨idleAfter, (alike.symm.trans alikeFirst).beq⟩

/-- An evaluation within a node leaves an idle state if it does so with what is known. -/
theorem Idle.leave {before after : Run} (idle : setting.Idle before) {around : Reference}
    (returns : Run.Returns { before with stack := around :: before.stack } after)
    (sound : setting.policy.isStackSensitive = false → setting.Sound after.known)
    (unknown : setting.policy.isStackSensitive = true → after.known = []) :
    setting.Idle { after with stack := after.stack.tail } := by
  have stack : after.stack = around :: before.stack := returns.stack
  exact ⟨returns.inProgress.trans idle.inProgress, by rw [stack, List.tail_cons, idle.stack],
    returns.overrides.trans idle.overrides, sound, unknown⟩

/-- Within a node, an expression of a file comes to alike boxes from all idle states, and idle states
are left. -/
theorem Idle.evaluate_within {run twin : Run} (idle : setting.Idle run)
    (idleTwin : setting.Idle twin) {path : Path} {file : Document}
    (found : setting.project.file? path = some file) (around : Reference) (expr : Expr) :
    let ended := (setting.evaluate path expr).run { run with stack := around :: run.stack }
    let endedTwin := (setting.evaluate path expr).run { twin with stack := around :: twin.stack }
    Alike .blind ended.1 endedTwin.1 ∧
      setting.Idle { ended.2 with stack := ended.2.stack.tail } ∧
      setting.Idle { endedTwin.2 with stack := endedTwin.2.stack.tail } := by
  let first : Run := { run with stack := around :: run.stack }
  let second : Run := { twin with stack := around :: twin.stack }
  obtain ⟨box, after, evaluated, returns, ends⟩ := evaluate_of_found first found expr
  obtain ⟨value, final, evaluatedTwin, returnsTwin, endsTwin⟩ :=
    evaluate_of_found second found expr
  have enough := Nat.le_refl (setting.fuel expr)
  rw [evaluated, evaluatedTwin]
  cases sensitive : setting.policy.isStackSensitive with
  | false =>
    -- What is known can be trusted, so both runs come to the meaning of the expression.
    have calm : false ≠ true := Bool.false_ne_true
    have scope : setting.project.scope path = file.scope := by rw [Project.scope, found]
    have within : (Task.expr file.scope expr).Within setting.project :=
      ⟨path, scope.symm⟩
    have ready : setting.Ready first := ⟨idle.inProgress, idle.overrides, idle.sound sensitive⟩
    have readyTwin : setting.Ready second :=
      ⟨idleTwin.inProgress, idleTwin.overrides, idleTwin.sound sensitive⟩
    obtain ⟨meaning, _, _, meansAll⟩ := Evaluation.run_ends false within {}
    have means := meansAll _ (setting.depth_le_fuel file.scope expr [])
    obtain ⟨alike, sound⟩ := ready.run sensitive within means (ends _ enough)
    obtain ⟨alikeTwin, soundTwin⟩ := readyTwin.run sensitive within means (endsTwin _ enough)
    exact ⟨alike.symm.trans alikeTwin,
      idle.leave returns (fun _ => sound) fun other => absurd (sensitive.symm.trans other) calm,
      idleTwin.leave returnsTwin (fun _ => soundTwin) fun other =>
        absurd (sensitive.symm.trans other) calm⟩
  | true =>
    -- Nothing is known on either side and the nodes around are the same, so both runs are one.
    have nodes : first.stack = second.stack :=
      congrArg (around :: ·) (idle.stack.trans idleTwin.stack.symm)
    have corresponds : first.Corresponds setting.policy Evaluation.Forgetful second :=
      ⟨⟨idle.inProgress.trans idleTwin.inProgress.symm, idle.unknown sensitive,
          idleTwin.unknown sensitive⟩, fun _ => nodes,
        idle.overrides.trans idleTwin.overrides.symm, fun _ => idle.overrides⟩
    obtain ⟨rfl, unknown, unknownTwin⟩ :=
      run_of_sensitive sensitive corresponds (ends _ enough) (endsTwin _ enough)
    have calm : true ≠ false := fun same => Bool.false_ne_true same.symm
    exact ⟨.refl _,
      idle.leave returns (fun other => absurd (sensitive.symm.trans other) calm) fun _ => unknown,
      idleTwin.leave returnsTwin (fun other => absurd (sensitive.symm.trans other) calm) fun _ =>
        unknownTwin⟩

/-- Evaluates one expression after the other. -/
def evaluateAll (setting : Setting) (calls : List (Path × Expr)) : StateM Run (List Box) :=
  calls.mapM fun (path, expr) => setting.evaluate path expr

/-- A list of evaluations starts with the first and goes on from the state that it leaves. -/
theorem evaluateAll_cons (setting : Setting) (path : Path) (expr : Expr)
    (rest : List (Path × Expr)) (run : Run) :
    ((setting.evaluateAll ((path, expr) :: rest)).run run).1 =
      ((setting.evaluate path expr).run run).1 ::
        ((setting.evaluateAll rest).run ((setting.evaluate path expr).run run).2).1 := by
  rw [evaluateAll, List.mapM_cons]
  rfl

end Setting

/-- The boxes of a sequence of evaluations of expressions of files are equal to the boxes of the
same evaluations each of which is the first. -/
theorem evaluateAll_transparent (setting : Setting) (calls : List (Path × Expr))
    (files : ∀ call ∈ calls, (setting.project.file? call.1).isSome) :
    ((setting.evaluateAll calls).run {}).1 ==
      calls.map fun (path, expr) => ((setting.evaluate path expr).run {}).1 := by
  have from_idle : ∀ run : Run, setting.Idle run →
      ((setting.evaluateAll calls).run run).1 ==
        calls.map fun (path, expr) => ((setting.evaluate path expr).run {}).1 := by
    induction calls with
    | nil => exact fun _ _ => rfl
    | cons call rest ih =>
      intro run idle
      obtain ⟨path, expr⟩ := call
      obtain ⟨idleAfter, equal⟩ :=
        Setting.evaluate_idle idle (files (path, expr) (List.mem_cons_self ..)) expr
      have others := ih (fun call listed => files call (List.mem_cons_of_mem _ listed)) _ idleAfter
      rw [Setting.evaluateAll_cons, List.map_cons, List.cons_beq_cons, equal, others]
      rfl
  exact from_idle {} (setting.idle_start [])

/-- Two declarations that take their values from each other. -/
def circularModule : Module :=
  ⟨[.declarations [.mk (.ident ⟨"first", 0⟩) (some (.ident ⟨21, 27⟩ ⟨"second", 0⟩)),
    .mk (.ident ⟨"second", 0⟩) (some (.ident ⟨38, 43⟩ ⟨"first", 0⟩))]]⟩

/-- A file in which two names stand for each other comes to the same cycle whichever name is asked
for first. -/
theorem evaluateAll_transparent_circular :
    let file := Document.make ⟨"/a.ts"⟩ "" circularModule
    let setting : Setting := { project := Project.insert {} file }
    let first : Path × Expr := (file.path, .ident default ⟨"first", 0⟩)
    let second : Path × Expr := (file.path, .ident default ⟨"second", 0⟩)
    (∀ call ∈ [first, second, first], (setting.project.file? call.1).isSome) ∧
      ((setting.evaluateAll [first, second, first]).run {}).1 ==
        [first, second, first].map fun (path, expr) => ((setting.evaluate path expr).run {}).1 := by
  intro file setting first second
  have files : ∀ call ∈ [first, second, first], (setting.project.file? call.1).isSome := by
    have found : (setting.project.file? file.path).isSome := by
      simp [setting, Project.file?, Project.insert, Entries.insert, Entries.update, Entries.get?]
    simp [first, second, found]
  exact ⟨files, evaluateAll_transparent setting _ files⟩

end Glean
