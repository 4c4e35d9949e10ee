import Glean.Proofs.Evaluation.Comparison
import Glean.Proofs.Evaluation.Depth

/-!
# Evaluation ends

From every working state, with whatever is known and in progress there, an evaluation ends within
a number of nested steps that depends on the project and the expression alone, and more fuel changes
neither the box nor the state. Both facts come from one comparison of an evaluation with itself at
two amounts of fuel, under the goals in progress; guarding a goal that is not among them leads to the
comparison with one goal more.
-/

namespace Glean

open Syntax Box

namespace Eval

/-- Two computations end in the same state with related values whenever exactly the given goals are
in progress, and they leave the state as evaluations do. -/
def EndAlike (inProgress : List Goal) {α β : Type} (related : α → β → Prop) (left : Eval α)
    (right : Eval β) : Prop :=
  ∀ run : Run, run.inProgress = inProgress → ∃ a b after,
    left run = some (a, after) ∧ right run = some (b, after) ∧ run.Returns after ∧ related a b

variable {inProgress : List Goal} {α β γ δ : Type} {related : α → β → Prop}

/-- Computations that end alike, followed by such, end alike. -/
theorem EndAlike.bind {after : γ → δ → Prop} {left : Eval α} {right : Eval β}
    {leftNext : α → Eval γ} {rightNext : β → Eval δ} (first : EndAlike inProgress related left right)
    (rest : ∀ a b, related a b → EndAlike inProgress after (leftNext a) (rightNext b)) :
    EndAlike inProgress after (left >>= leftNext) (right >>= rightNext) := by
  intro run started
  obtain ⟨a, b, middle, leftEnds, rightEnds, returns, alike⟩ := first run started
  obtain ⟨c, d, final, leftNextEnds, rightNextEnds, returnsNext, alikeNext⟩ :=
    rest a b alike middle (returns.inProgress.trans started)
  refine ⟨c, d, final, ?_, ?_, returns.trans returnsNext, alikeNext⟩
  · simpa [bind_apply, leftEnds] using leftNextEnds
  · simpa [bind_apply, rightEnds] using rightNextEnds

/-- Computations that end alike still do so inside a node. -/
theorem EndAlike.inside {left right : Eval Box} {related : Box → Box → Prop}
    (inner : EndAlike inProgress related left right) (policy : Policy) (expr : Expr)
    (node : Reference) :
    EndAlike inProgress related (Eval.inside policy expr node left)
      (Eval.inside policy expr node right) := by
  intro run started
  obtain ⟨a, b, after, leftEnds, rightEnds, returns, alike⟩ :=
    inner (run.enter node (policy.overridesFor expr run.stack)) started
  refine ⟨a, b, after.leave (policy.overridesFor expr run.stack), ?_, ?_, returns.leave, alike⟩
  · simp [inside_apply, leftEnds]
  · simp [inside_apply, rightEnds]

/-- A goal is found or worked out from every state; when it is worked out it is new. -/
theorem EndAlike.remembering {left right : Eval Box} {goal : Goal} {keep : Bool}
    (inner : goal ∉ inProgress → EndAlike (goal :: inProgress) (Alike .full) left right)
    (node : Reference) :
    EndAlike inProgress (Alike .full) (Guard.remembering keep goal node left)
      (Guard.remembering keep goal node right) := by
  intro run started
  simp only [remembering_apply]
  split
  · exact ⟨_, _, run, rfl, rfl, .refl run, rfl⟩
  · rename_i unknown
    split
    · exact ⟨_, _, _, rfl, rfl, .cycle run, rfl⟩
    · rename_i fresh
      obtain ⟨a, b, after, leftEnds, rightEnds, returns, alike⟩ :=
        inner (started ▸ fresh) (run.begin goal) (by simp [Run.begin, started])
      obtain rfl := alike_full.1 alike
      exact ⟨_, _, _, by rw [leftEnds]; rfl, by rw [rightEnds]; rfl, returns.finish unknown,
        rfl⟩

end Eval

/-- Evaluations under given goals in progress end alike. -/
def Comparison.ending (policy : Policy) (inProgress : List Goal) : Comparison policy where
  view := .full
  Holds := Eval.EndAlike inProgress
  value := fun related run _ => ⟨_, _, run, rfl, rfl, .refl run, related⟩
  bind := Eval.EndAlike.bind
  override? := fun _ run _ => ⟨_, _, run, rfl, rfl, .refl run, rfl⟩
  helper? := fun _ run _ => ⟨_, _, run, rfl, rfl, .refl run, rfl⟩
  allowed := by
    intro expr run started
    simp only [Eval.allowed_apply]
    split
    · exact ⟨_, _, run, rfl, rfl, .refl run, rfl⟩
    · exact ⟨_, _, _, rfl, rfl, .gate .., rfl⟩
  inside := fun expr node _ _ inner => inner.inside policy expr node

namespace Evaluation

variable {setting : Setting} (keep : Bool)

/-- Two runs of tasks that ask for the same end alike when both have fuel for the depth. -/
theorem run_endAlike {task twin : Task} {inProgress : List Goal} {fuel more : Nat}
    (within : task.Within setting.project) (same : task.Alike setting .full twin)
    (enough : setting.depth inProgress task ≤ fuel)
    (enoughMore : setting.depth inProgress task ≤ more) :
    (Comparison.ending setting.policy inProgress).Gives
      (run setting (.remembering keep) fuel task) (run setting (.remembering keep) more twin) := by
  induction fuel generalizing task twin inProgress more with
  | zero => exact absurd (setting.depth_pos inProgress task) (by omega)
  | succ fuel ih =>
    cases more with
    | zero => exact absurd (setting.depth_pos inProgress task) (by omega)
    | succ more =>
      -- One step, under whatever goals are in progress once the task is begun.
      have body : ∀ goals, (∀ part, setting.Calls task part →
            setting.depth goals part < setting.depth inProgress task) →
          (Comparison.ending setting.policy goals).Gives
            (step setting Guard.plain (run setting (.remembering keep) fuel) task)
            (step setting Guard.plain (run setting (.remembering keep) more) twin) := by
        intro goals deeper
        refine Comparison.step_related _ same fun part other calls alike => ?_
        have less := deeper part calls
        exact ih (calls.within within) alike (by omega) (by omega)
      have node : task.node = twin.node := Option.some_inj.1 same.node
      rw [run, run, step_eq, step_eq setting _ _ twin, ← same.goal?, ← node]
      cases asked : task.goal? setting with
      | none => exact body _ fun part calls => setting.depth_lt_of_calls calls asked _
      | some goal =>
        refine Eval.EndAlike.remembering (fun fresh => ?_) _
        exact body _ fun part calls => Setting.depth_lt_of_calls_goal calls within asked fresh

/-- With fuel for its depth a task of the project ends, and any such fuel ends it in one way. -/
theorem run_ends {task : Task} (within : task.Within setting.project) (run : Run) :
    ∃ box after, run.Returns after ∧ ∀ fuel, setting.depth run.inProgress task ≤ fuel →
      Evaluation.run setting (.remembering keep) fuel task run = some (box, after) := by
  obtain ⟨box, _, after, ends, _, returns, _⟩ :=
    run_endAlike keep within (.refl task) (Nat.le_refl _) (Nat.le_refl _) run rfl
  refine ⟨box, after, returns, fun fuel enough => ?_⟩
  obtain ⟨first, second, middle, firstEnds, secondEnds, _, alike⟩ :=
    run_endAlike keep within (.refl task) (Nat.le_refl _) enough run rfl
  obtain rfl := alike_full.1 alike
  rw [ends] at firstEnds
  rw [secondEnds, firstEnds]

end Evaluation

namespace Setting

variable (setting : Setting) (path : Path) (run : Run)

/-- The scope of a file is there; that of a path without a file is there once it was asked for. -/
theorem scopeAt_eq :
    (setting.scopeAt path).run run =
      match setting.project.file? path with
      | some file => (file.scope, run)
      | none =>
        match run.strangers.find? (· == path) with
        | some stranger => (.empty stranger, run)
        | none => (.empty path, { run with strangers := path :: run.strangers }) := by
  unfold scopeAt
  cases setting.project.file? path with
  | some file => rfl
  | none =>
    simp only [StateT.run, bind, StateT.bind, get, getThe, MonadStateOf.get, StateT.get, pure]
    cases run.strangers.find? (· == path) <;> rfl

/-- The scope of a path is that of a way to write it, and finding it changes no more of the state
than the ways in which missing files were written. -/
theorem scopeAt_spec :
    ∃ place strangers, place.components = path.components ∧
      (setting.scopeAt path).run run = (setting.project.scope place, { run with strangers }) := by
  rw [scopeAt_eq]
  cases found : setting.project.file? path with
  | some file =>
    refine ⟨path, run.strangers, rfl, ?_⟩
    rw [Project.scope, found]
  | none =>
    cases known : run.strangers.find? (· == path) with
    | some stranger =>
      have same : (stranger == path) = true := by simpa using List.find?_some known
      refine ⟨stranger, run.strangers, Path.beq_iff.1 same, ?_⟩
      rw [Project.scope, Project.file?_congr _ same, found]
    | none =>
      refine ⟨path, path :: run.strangers, rfl, ?_⟩
      rw [Project.scope, found]

/-- An evaluation runs with the fuel of its expression, in the scope of its path. -/
theorem evaluate_eq (expr : Expr) :
    (setting.evaluate path expr).run run =
      let started := (setting.scopeAt path).run run
      (Evaluation.run setting setting.guard (setting.fuel expr) (.expr started.1 expr)
        started.2).getD (.unknown .cycle (started.1.refer expr.span), started.2) := by
  unfold evaluate
  simp only [StateT.run, bind, StateT.bind, get, getThe, MonadStateOf.get, StateT.get, pure]
  generalize setting.scopeAt path run = found
  obtain ⟨scope, started⟩ := found
  dsimp only
  cases Evaluation.run setting setting.guard (setting.fuel expr) (.expr scope expr) started <;> rfl

/-- An evaluation is a run with enough fuel, from a state that may know one more way to write a
missing file, and it leaves that state as runs do. -/
theorem evaluate_spec (expr : Expr) :
    ∃ place strangers box after, place.components = path.components ∧
      (setting.scopeAt path).run run = (setting.project.scope place, { run with strangers }) ∧
      (setting.evaluate path expr).run run = (box, after) ∧
      Run.Returns { run with strangers } after ∧
      ∀ fuel, setting.fuel expr ≤ fuel →
        Evaluation.run setting setting.guard fuel (.expr (setting.project.scope place) expr)
          { run with strangers } = some (box, after) := by
  obtain ⟨place, strangers, same, found⟩ := setting.scopeAt_spec path run
  have within : (Task.expr (setting.project.scope place) expr).Within setting.project :=
    ⟨place, rfl⟩
  obtain ⟨box, after, returns, ends⟩ :=
    Evaluation.run_ends (!setting.policy.isStackSensitive) within { run with strangers }
  have enough := setting.depth_le_fuel (setting.project.scope place) expr run.inProgress
  refine ⟨place, strangers, box, after, same, found, ?_, returns,
    fun fuel more => ends fuel (Nat.le_trans enough more)⟩
  rw [evaluate_eq, found]
  exact congrArg (Option.getD · (Box.unknown .cycle ((setting.project.scope place).refer expr.span),
    { run with strangers })) (ends _ enough)

variable {setting path} in
/-- The scope at the path of a file is that of the file, and the state stays. -/
theorem scopeAt_of_found {file : Document} (found : setting.project.file? path = some file) :
    (setting.scopeAt path).run run = (file.scope, run) := by
  rw [scopeAt, found]
  rfl

variable {setting path} in
/-- An expression of a file is evaluated in the scope of the file, and the state is left as runs
do. -/
theorem evaluate_of_found {file : Document} (found : setting.project.file? path = some file)
    (expr : Expr) :
    ∃ box after, (setting.evaluate path expr).run run = (box, after) ∧ run.Returns after ∧
      ∀ fuel, setting.fuel expr ≤ fuel →
        Evaluation.run setting setting.guard fuel (.expr file.scope expr) run =
          some (box, after) := by
  obtain ⟨place, strangers, box, after, _, located, evaluated, returns, ends⟩ :=
    setting.evaluate_spec path run expr
  obtain ⟨scope, state⟩ := Prod.mk.inj ((scopeAt_of_found run found).symm.trans located)
  rw [← state] at returns
  rw [← scope, ← state] at ends
  exact ⟨box, after, evaluated, returns, ends⟩

end Setting

/-- An evaluation ends with a box, and the depth to which it nests is bounded by the project and the
expression: with that much fuel, and with more, every policy comes from every working state to the
same box and the same state. -/
theorem evaluate_terminates (project : Project) (expr : Expr) :
    ∃ bound, ∀ (policy : Policy) (path : Path) (run : Run),
      let setting : Setting := { project, policy }
      let started := (setting.scopeAt path).run run
      ∃ box after, (setting.evaluate path expr).run run = (box, after) ∧
        ∀ spare, Evaluation.run setting setting.guard (bound + spare) (.expr started.1 expr)
          started.2 = some (box, after) := by
  refine ⟨Setting.fuel { project } expr, fun policy path run => ?_⟩
  obtain ⟨place, strangers, box, after, _, found, evaluated, _, ends⟩ :=
    Setting.evaluate_spec { project, policy } path run expr
  refine ⟨box, after, evaluated, fun spare => ?_⟩
  rw [found]
  exact ends _ (Nat.le_add_right ..)

end Glean
