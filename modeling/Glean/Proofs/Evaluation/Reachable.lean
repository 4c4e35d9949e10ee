import Glean.Proofs.Evaluation.Search
import Glean.Proofs.Evaluation.Transparency

/-!
# States between evaluations

Every state between evaluations, possibly within nodes (`Setting.Reachable`), is quiet: nothing is
in progress or in force, and what is known can be trusted. An evaluation from a quiet state comes to
the box of the run that starts within the same nodes, knows nothing and keeps nothing
(`Quiet.evaluate`).

In such a run every part is worked out from a state that looks like the one before it, so what a
computation comes to can be put together from what its parts come to (`Eval.ComesFrom`).
-/

namespace Glean

open Syntax Box

variable {setting : Setting}

namespace Setting

/-- The states between evaluations: nodes may be around, and anything may have been asked. -/
inductive Reachable (setting : Setting) : Run → Prop where
  | start : Reachable setting {}
  | evaluate {run : Run} (reachable : Reachable setting run) (path : Path) (expr : Expr) :
    Reachable setting ((setting.evaluate path expr).run run).2
  | enter {run : Run} (reachable : Reachable setting run) (node : Reference) :
    Reachable setting { run with stack := node :: run.stack }
  | leave {run : Run} (reachable : Reachable setting run) :
    Reachable setting { run with stack := run.stack.tail }
  | record {run : Run} (reachable : Reachable setting run) (event : Event) :
    Reachable setting { run with events := event :: run.events }

/-- A state in which nothing is in progress or in force. What is known can be trusted, and under a
policy that sees the nodes around an expression nothing is known. -/
structure Quiet (setting : Setting) (run : Run) : Prop where
  inProgress : run.inProgress = []
  overrides : run.overrides = []
  sound : setting.policy.isStackSensitive = false → setting.Sound run.known
  unknown : setting.policy.isStackSensitive = true → run.known = []

/-- The box that an expression comes to from a state, when nothing is kept. -/
def boxFrom (setting : Setting) (start : Run) (scope : Scope) (expr : Expr) : Box :=
  let task := Task.expr scope expr
  ((Evaluation.run setting (.remembering false) (setting.depth start.inProgress task) task
    start).map Prod.fst).getD (.unknown .cycle (scope.refer expr.span))

/-- With enough fuel a run that keeps nothing ends with the box from its state. -/
theorem run_boxFrom (start : Run) {scope : Scope} {expr : Expr}
    (within : (Task.expr scope expr).Within setting.project) :
    ∃ after, ∀ fuel, setting.depth start.inProgress (.expr scope expr) ≤ fuel →
      Evaluation.run setting (.remembering false) fuel (.expr scope expr) start =
        some (setting.boxFrom start scope expr, after) := by
  obtain ⟨box, after, _, ends⟩ := Evaluation.run_ends false within start
  have same : setting.boxFrom start scope expr = box := by
    rw [boxFrom, ends _ (Nat.le_refl _)]
    rfl
  exact ⟨after, same ▸ ends⟩

/-- While nothing is known, a box depends on the goals in progress and the overrides in force, and on
the nodes around it where the policy can see them. -/
theorem boxFrom_congr (start other : Run) (unknown : start.known = [])
    (unknownOther : other.known = []) (goals : start.inProgress = other.inProgress)
    (stack : setting.policy.isStackSensitive = true → start.stack = other.stack)
    (overrides : start.overrides = other.overrides)
    (free : setting.policy.isStackSensitive = false → start.overrides = []) {scope : Scope}
    {expr : Expr} (within : (Task.expr scope expr).Within setting.project) :
    setting.boxFrom start scope expr = setting.boxFrom other scope expr := by
  obtain ⟨after, ends⟩ := run_boxFrom start within
  obtain ⟨final, endsOther⟩ := run_boxFrom other within
  have ended := endsOther _ (Nat.le_of_eq (congrArg (setting.depth · _) goals.symm))
  have corresponds : start.Corresponds setting.policy Evaluation.Forgetful other :=
    ⟨⟨goals, unknown, unknownOther⟩, stack, overrides, free⟩
  obtain ⟨box, last, otherEnds, _, alike⟩ :=
    (Evaluation.uncached_of_uncached (.refl _)).elim corresponds (ends _ (Nat.le_refl _))
  obtain ⟨rfl, _⟩ := Prod.mk.inj (Option.some_inj.1 (otherEnds.symm.trans ended))
  exact alike_full.1 alike

/-- From a quiet state an evaluation comes to the box of the run within the same nodes that knows
nothing and keeps nothing, and the state after it is quiet. -/
theorem Quiet.evaluate {run : Run} (quiet : setting.Quiet run) (path : Path) (expr : Expr) :
    ∃ place strangers, place.components = path.components ∧
      (setting.scopeAt path).run run = (setting.project.scope place, { run with strangers }) ∧
      Alike .blind (setting.boxFrom { stack := run.stack } (setting.project.scope place) expr)
        ((setting.evaluate path expr).run run).1 ∧
      setting.Quiet ((setting.evaluate path expr).run run).2 := by
  obtain ⟨place, strangers, value, final, same, located, evaluated, returns, ends⟩ :=
    setting.evaluate_spec path run expr
  have within : (Task.expr (setting.project.scope place) expr).Within setting.project :=
    ⟨place, rfl⟩
  have ended := ends _ (Nat.le_refl _)
  have enough := setting.depth_le_fuel (setting.project.scope place) expr []
  have inProgress := returns.inProgress.trans quiet.inProgress
  have overrides := returns.overrides.trans quiet.overrides
  refine ⟨place, strangers, same, located, ?_⟩
  rw [evaluated]
  -- A policy that looks at no node may have kept values, which can be trusted. Any other keeps
  -- none, and the run is the fresh one itself.
  cases sensitive : setting.policy.isStackSensitive with
  | false =>
    have calm : true ≠ setting.policy.isStackSensitive := by simp [sensitive]
    obtain ⟨after, plain⟩ := run_boxFrom {} within
    have ready : setting.Ready { run with strangers } :=
      ⟨quiet.inProgress, quiet.overrides, quiet.sound sensitive⟩
    obtain ⟨alike, sound⟩ := ready.run sensitive within (plain _ enough) ended
    rw [boxFrom_congr { stack := run.stack } {} rfl rfl rfl
      (fun other => absurd other.symm calm) rfl (fun _ => rfl) within]
    exact ⟨alike, inProgress, overrides, fun _ => sound, fun other => absurd other.symm calm⟩
  | true =>
    obtain ⟨after, plain⟩ := run_boxFrom { stack := run.stack } within
    have fresh := plain _ enough
    have corresponds : Run.Corresponds setting.policy Evaluation.Forgetful { stack := run.stack }
        { run with strangers } :=
      ⟨⟨quiet.inProgress.symm, rfl, quiet.unknown sensitive⟩, fun _ => rfl, quiet.overrides.symm,
        fun _ => rfl⟩
    have forgets : Guard.remembering false = setting.guard := by simp [guard, sensitive]
    rw [forgets] at fresh
    obtain ⟨rfl, _, unknown⟩ := run_of_sensitive sensitive corresponds fresh ended
    exact ⟨.refl _, inProgress, overrides,
      fun calm => absurd (calm.symm.trans sensitive) Bool.false_ne_true, fun _ => unknown⟩

/-- Under a policy that sees no nodes, an expression of a file comes to boxes that look alike from
all quiet states, whatever nodes are around. -/
theorem Quiet.evaluate_alike {run twin : Run} (quiet : setting.Quiet run)
    (quietTwin : setting.Quiet twin) (calm : setting.policy.isStackSensitive = false) {path : Path}
    (found : (setting.project.file? path).isSome) (expr : Expr) :
    Alike .blind ((setting.evaluate path expr).run run).1
      ((setting.evaluate path expr).run twin).1 := by
  obtain ⟨place, _, same, _, alike, _⟩ := quiet.evaluate path expr
  obtain ⟨other, _, sameOther, _, alikeTwin, _⟩ := quietTwin.evaluate path expr
  rw [← Project.scope_congr found same.symm] at alike
  rw [← Project.scope_congr found sameOther.symm] at alikeTwin
  rw [boxFrom_congr { stack := run.stack } { stack := twin.stack } rfl rfl rfl
    (fun sensitive => absurd (calm.symm.trans sensitive) Bool.false_ne_true) rfl (fun _ => rfl)
    ⟨path, rfl⟩] at alike
  exact alike.symm.trans alikeTwin

/-- Between evaluations the state is quiet. -/
theorem Reachable.quiet {run : Run} (reachable : setting.Reachable run) : setting.Quiet run := by
  induction reachable with
  | start => exact ⟨rfl, rfl, fun _ => .nil, fun _ => rfl⟩
  | evaluate _ path expr ih =>
    obtain ⟨_, _, _, _, _, quiet⟩ := ih.evaluate path expr
    exact quiet
  | enter _ _ ih | leave _ ih | record _ _ ih =>
    exact ⟨ih.inProgress, ih.overrides, ih.sound, ih.unknown⟩

end Setting

/-- The state looks like `start` and nothing is known. -/
structure Run.Resembles (run start : Run) : Prop where
  known : run.known = []
  inProgress : run.inProgress = start.inProgress
  stack : run.stack = start.stack
  overrides : run.overrides = start.overrides

/-- From every state that looks like `start` the computation comes to the value, and the state after
it looks the same. -/
def Eval.ComesFrom {α : Type} (start : Run) (computation : Eval α) (value : α) : Prop :=
  ∀ run : Run, run.Resembles start →
    ∃ after, computation run = some (value, after) ∧ after.Resembles start

namespace Eval.ComesFrom

variable {α β : Type} {start : Run}

/-- A value alone comes from every state. -/
theorem pure (value : α) : ComesFrom start (Pure.pure value) value :=
  fun run resembles => ⟨run, rfl, resembles⟩

/-- What comes from a state is handed to the next computation from a state like it. -/
theorem bind {computation : Eval α} {next : α → Eval β} {value : α} {result : β}
    (first : ComesFrom start computation value) (rest : ComesFrom start (next value) result) :
    ComesFrom start (computation >>= next) result := by
  intro run resembles
  obtain ⟨middle, started, resemblesMiddle⟩ := first run resembles
  obtain ⟨after, ended, resemblesAfter⟩ := rest middle resemblesMiddle
  exact ⟨after, by rw [bind_apply, started]; exact ended, resemblesAfter⟩

/-- Without overrides no name is overridden. -/
theorem override? (free : start.overrides = []) (name : String) :
    ComesFrom start (Eval.override? name) none := by
  intro run resembles
  exact ⟨run, override?_of_free name (resembles.overrides.trans free), resembles⟩

/-- The gate answers by the nodes around the expression. -/
theorem allowed {policy : Policy} {expr : Expr}
    (admits : ∀ gate, policy.gate = some gate → gate expr start.stack = true) :
    ComesFrom start (Eval.allowed policy expr) true := by
  intro run resembles
  rw [allowed_apply]
  cases gated : policy.gate with
  | none => exact ⟨run, rfl, resembles⟩
  | some gate =>
    have admitted : gate expr run.stack = true := resembles.stack ▸ admits gate gated
    simp only [admitted]
    exact ⟨_, rfl, ⟨resembles.known, resembles.inProgress, resembles.stack, resembles.overrides⟩⟩

/-- Within a node, a computation starts with the node around it and its overrides in force. -/
theorem inside {policy : Policy} {expr : Expr} {node : Reference} {computation : Eval Box}
    {box : Box}
    (comes : ComesFrom (start.enter node (policy.overridesFor expr start.stack)) computation box) :
    ComesFrom start (Eval.inside policy expr node computation) box := by
  intro run resembles
  have brings := congrArg (policy.overridesFor expr) resembles.stack
  have entered : (run.enter node (policy.overridesFor expr run.stack)).Resembles
      (start.enter node (policy.overridesFor expr start.stack)) := by
    rw [brings]
    exact ⟨resembles.known, resembles.inProgress, congrArg (node :: ·) resembles.stack,
      congrArg (_ ++ ·) resembles.overrides⟩
  obtain ⟨after, ended, left⟩ := comes _ entered
  refine ⟨after.leave (policy.overridesFor expr start.stack), ?_, left.known, left.inProgress,
    congrArg List.tail left.stack, ?_⟩
  · rw [inside_apply, ended, brings]
    rfl
  · simp [Run.leave, left.overrides, Run.enter]

/-- A goal that is not in progress is worked out with the goal in progress. -/
theorem remembering {goal : Goal} {node : Reference} {computation : Eval Box} {box : Box}
    (fresh : goal ∉ start.inProgress) (comes : ComesFrom (start.begin goal) computation box) :
    ComesFrom start (Guard.remembering false goal node computation) box := by
  intro run resembles
  have unknown : run.known.lookup goal = none := by rw [resembles.known, List.lookup_nil]
  obtain ⟨middle, ended, begun⟩ := comes (run.begin goal) ⟨resembles.known,
    congrArg (goal :: ·) resembles.inProgress, resembles.stack, resembles.overrides⟩
  refine ⟨_, remembering_begin unknown (resembles.inProgress ▸ fresh) ended, ?_, ?_, begun.stack,
    begun.overrides⟩
  · simpa [Run.finish] using begun.known
  · simp [Run.finish, begun.inProgress, Run.begin]

end Eval.ComesFrom

namespace Setting

/-- With fuel for its depth, an expression comes to its box from every state like the first one. -/
theorem comesFrom_boxFrom {start : Run} {scope : Scope} {expr : Expr} {fuel : Nat}
    (unknown : start.known = [])
    (free : setting.policy.isStackSensitive = false → start.overrides = [])
    (within : (Task.expr scope expr).Within setting.project)
    (enough : setting.depth start.inProgress (.expr scope expr) ≤ fuel) :
    Eval.ComesFrom start (Evaluation.run setting (.remembering false) fuel (.expr scope expr))
      (setting.boxFrom start scope expr) := by
  intro run resembles
  obtain ⟨after, ends⟩ := run_boxFrom run within
  have ended := ends fuel (resembles.inProgress ▸ enough)
  obtain ⟨returns, known⟩ := Evaluation.resumes ended
  rw [boxFrom_congr start run unknown resembles.known resembles.inProgress.symm
    (fun _ => resembles.stack.symm) resembles.overrides.symm free within]
  exact ⟨after, ended, known.trans resembles.known, returns.inProgress.trans resembles.inProgress,
    returns.stack.trans resembles.stack, returns.overrides.trans resembles.overrides⟩

/-- The box of an expression is what its run comes to. -/
theorem boxFrom_eq {start : Run} {scope : Scope} {expr : Expr} {box : Box}
    (unknown : start.known = [])
    (comes : Eval.ComesFrom start (Evaluation.run setting (.remembering false)
      (setting.depth start.inProgress (.expr scope expr)) (.expr scope expr)) box) :
    setting.boxFrom start scope expr = box := by
  obtain ⟨after, ended, _⟩ := comes start ⟨unknown, rfl, rfl, rfl⟩
  rw [boxFrom, ended]
  rfl

end Setting

end Glean
