import Glean.Proofs.Evaluation.Depth
import Glean.Proofs.Evaluation.Simulation

/-!
# Evaluation without a memory

With the plain guard a task is worked out from scratch whenever it is asked for, and a task that
depends on itself never ends. What is said here of the plain guard, and of more fuel under the
remembering one, needs no knowledge of what is known or in progress.

`Setting.Settles` is the meaning of a task under a policy that does not look at nodes: the box, up to
nodes, to which it comes without a memory. Tasks with one goal have one meaning.
-/

namespace Glean

open Syntax Box

/-- No memory is lost. -/
def Memory.never : Memory → Prop := fun _ => False

namespace Eval.Simulates

variable {policy : Policy} {memories : Memory → Memory → Prop} {α β : Type}
  {related : α → β → Prop} {left : Eval α} {right : Eval β}

/-- When no memory is lost, a simulation has only to follow what ends. -/
theorem of_ends
    (ends : ∀ {run twin after : Run} {a : α}, run.Corresponds policy memories twin →
      left run = some (a, after) →
        ∃ b end', right twin = some (b, end') ∧ after.Corresponds policy memories end' ∧
          related a b) :
    Simulates policy Memory.never memories related left right :=
  ⟨fun gone => gone.elim, fun corresponds ended => .inl (ends corresponds ended)⟩

/-- Where no memory can be lost, the second computation ends when the first one does. -/
theorem elim (simulates : Simulates policy Memory.never memories related left right)
    {run twin after : Run} {a : α} (corresponds : run.Corresponds policy memories twin)
    (ended : left run = some (a, after)) :
    ∃ b end', right twin = some (b, end') ∧ after.Corresponds policy memories end' ∧
      related a b :=
  (simulates.ends corresponds ended).resolve_right fun gone => gone.1

end Eval.Simulates

variable {policy : Policy} {setting : Setting} {task twin part : Task}

/-- A goal is guarded in the same way from the same memory. -/
theorem Eval.Simulates.remembering {left right : Eval Box}
    (inner : Eval.Simulates policy Memory.never Eq (Alike .full) left right) (keep : Bool)
    (goal : Goal) (node : Reference) :
    Eval.Simulates policy Memory.never Eq (Alike .full) (Guard.remembering keep goal node left)
      (Guard.remembering keep goal node right) :=
  of_ends fun {run twin _ _} corresponds ended => by
    have known : run.known = twin.known := congrArg Memory.known corresponds.memories
    have inProgress : run.inProgress = twin.inProgress :=
      congrArg Memory.inProgress corresponds.memories
    have cycles : run.cycles = twin.cycles := congrArg Memory.cycles corresponds.memories
    rcases Eval.remembering_cases ended with ⟨found, rfl⟩ | ⟨unknown, entered, rfl, rfl⟩ |
      ⟨unknown, fresh, middle, started, rfl⟩
    · exact ⟨_, _, Eval.remembering_known (known ▸ found), corresponds, rfl⟩
    · refine ⟨_, _, Eval.remembering_cycle (known ▸ unknown) (inProgress ▸ entered), ?_, rfl⟩
      exact ⟨by simp [Run.memory, known, inProgress, cycles], corresponds.stack,
        corresponds.overrides, corresponds.free⟩
    · have begun : (run.begin goal).Corresponds policy Eq (twin.begin goal) :=
        ⟨by simp [Run.memory, Run.begin, known, inProgress, cycles], corresponds.stack,
          corresponds.overrides, corresponds.free⟩
      obtain ⟨b, middle', twinEnds, after, alike⟩ := inner.elim begun started
      obtain rfl := alike_full.1 alike
      refine ⟨_, _, Eval.remembering_begin (known ▸ unknown) (inProgress ▸ fresh) twinEnds,
        ⟨?_, after.stack, after.overrides, after.free⟩, rfl⟩
      have memory : middle.memory = middle'.memory := after.memories
      simp only [Run.memory, Memory.mk.injEq] at memory
      simp [Run.memory, Run.finish, memory, cycles]

namespace Evaluation

/-- One step of two tasks that ask for the same is simulated, under the guard, when their parts are.
-/
theorem step_remembering {keep : Bool} {next other : Task → Eval Box}
    (same : task.Alike setting .full twin)
    (parts : ∀ part twin, setting.Calls task part → part.Alike setting .full twin →
      (Comparison.simulation setting.policy .full Memory.never Eq).Gives (next part) (other twin)) :
    (Comparison.simulation setting.policy .full Memory.never Eq).Gives
      (step setting (.remembering keep) next task)
      (step setting (.remembering keep) other twin) := by
  have body := Comparison.step_related
    (Comparison.simulation setting.policy .full Memory.never Eq) same parts
  have node : task.node = twin.node := Option.some_inj.1 same.node
  rw [step_eq, step_eq setting _ _ twin, ← same.goal?, ← node]
  cases task.goal? setting with
  | none => exact body
  | some goal => exact Eval.Simulates.remembering body keep goal _

/-- More fuel does not change an evaluation that ends. -/
theorem run_more {keep : Bool} {fuel more : Nat} (le : fuel ≤ more)
    (same : task.Alike setting .full twin) :
    (Comparison.simulation setting.policy .full Memory.never Eq).Gives
      (run setting (.remembering keep) fuel task) (run setting (.remembering keep) more twin) := by
  induction fuel generalizing task twin more with
  | zero => exact .of_failure _
  | succ fuel ih =>
    obtain ⟨more, rfl⟩ : ∃ less, more = less + 1 := ⟨more - 1, by omega⟩
    exact step_remembering same fun part other _ alike => ih (by omega) alike

/-- An evaluation that ends comes to one box and one memory, whatever the fuel. -/
theorem run_unique {keep : Bool} {fuel more : Nat} {run after other : Run} {box value : Box}
    (free : setting.policy.isStackSensitive = false → run.overrides = [])
    (ended : Evaluation.run setting (.remembering keep) fuel task run = some (box, after))
    (again : Evaluation.run setting (.remembering keep) more task run = some (value, other)) :
    box = value ∧ after.memory = other.memory := by
  have self : run.Corresponds setting.policy Eq run := ⟨rfl, fun _ => rfl, rfl, free⟩
  obtain ⟨first, middle, firstEnds, firstCorresponds, alikeFirst⟩ :=
    (run_more (Nat.le_max_left fuel more) (.refl task)).elim self ended
  obtain ⟨second, final, secondEnds, secondCorresponds, alikeSecond⟩ :=
    (run_more (Nat.le_max_right fuel more) (.refl task)).elim self again
  obtain ⟨rfl, rfl⟩ := Prod.mk.inj (Option.some_inj.1 (firstEnds.symm.trans secondEnds))
  refine ⟨(alike_full.1 alikeFirst).trans (alike_full.1 alikeSecond).symm, ?_⟩
  exact Eq.trans firstCorresponds.memories secondCorresponds.memories.symm

/-- Without a memory, tasks that ask for the same come to alike boxes, also with more fuel. -/
theorem plain_more {fuel more : Nat} (le : fuel ≤ more) (same : task.Alike setting .blind twin) :
    (Comparison.simulation setting.policy .blind Memory.never fun _ _ => True).Gives
      (run setting Guard.plain fuel task) (run setting Guard.plain more twin) := by
  induction fuel generalizing task twin more with
  | zero => exact .of_failure _
  | succ fuel ih =>
    obtain ⟨more, rfl⟩ : ∃ less, more = less + 1 := ⟨more - 1, by omega⟩
    exact Comparison.step_related _ same fun part other _ alike => ih (by omega) alike

end Evaluation

/-- Tasks of the project with one goal ask for the same. -/
theorem Task.alike_of_goal {goal : Goal} (within : task.Within setting.project)
    (withinTwin : twin.Within setting.project) (asked : task.goal? setting = some goal)
    (askedTwin : twin.goal? setting = some goal) : task.Alike setting .blind twin := by
  -- Goals name files by the components of their paths, and these determine the scope.
  have scopes : ∀ {path place : Path}, (setting.project.file? path).isSome →
      (setting.project.scope path).file.components = (setting.project.scope place).file.components →
      setting.project.scope path = setting.project.scope place := by
    intro path place found same
    rw [Project.components_scope, Project.components_scope] at same
    exact Project.scope_congr found same
  cases task with
  | expr => cases asked
  | binding scope id node =>
    obtain ⟨path, rfl⟩ := within
    obtain ⟨value, bound, constant, rfl⟩ := goal?_binding asked
    cases twin with
    | binding scope other node =>
      obtain ⟨place, rfl⟩ := withinTwin
      obtain ⟨_, _, _, same⟩ := goal?_binding askedTwin
      obtain ⟨files, rfl⟩ := Goal.binding.inj same
      rw [scopes (Project.isSome_file?_of_bound bound) files]
      exact .binding _ _ rfl
    | expr => cases askedTwin
    | exported | whole => simp [Task.goal?] at askedTwin
  | exported path name node =>
    obtain rfl := Option.some_inj.1 asked
    cases twin with
    | exported place other node =>
      obtain ⟨files, rfl⟩ := Goal.exported.inj (Option.some_inj.1 askedTwin).symm
      exact .exported (scopes within files) _ rfl
    | expr => cases askedTwin
    | binding scope id => obtain ⟨_, _, _, same⟩ := goal?_binding askedTwin; cases same
    | whole => simp [Task.goal?] at askedTwin
  | whole path node =>
    obtain rfl := Option.some_inj.1 asked
    cases twin with
    | whole place node =>
      have files := Goal.whole.inj (Option.some_inj.1 askedTwin).symm
      exact .whole (scopes within files) rfl
    | expr => cases askedTwin
    | binding scope id => obtain ⟨_, _, _, same⟩ := goal?_binding askedTwin; cases same
    | exported => simp [Task.goal?] at askedTwin

namespace Setting

/-- Without a memory the task comes to the box within the fuel. -/
def Settles (setting : Setting) (fuel : Nat) (task : Task) (box : Box) : Prop :=
  ∃ after, Evaluation.run setting Guard.plain fuel task {} = some (box, after)

section Calm

variable (calm : setting.policy.isStackSensitive = false)

include calm

/-- Where a task ends without a memory once, it settles, with alike boxes from everywhere. -/
theorem settles_of_plain {fuel more : Nat} {run after : Run} {box : Box} (le : fuel ≤ more)
    (same : task.Alike setting .blind twin) (free : run.overrides = [])
    (ended : Evaluation.run setting Guard.plain fuel task run = some (box, after)) :
    after.overrides = [] ∧ ∃ other, setting.Settles more twin other ∧ Alike .blind box other := by
  have corresponds : run.Corresponds setting.policy (fun _ _ => True) {} :=
    .of_calm calm free rfl trivial
  obtain ⟨other, final, twinEnds, after, alike⟩ :=
    (Evaluation.plain_more le same).elim corresponds ended
  exact ⟨after.free calm, other, ⟨final, twinEnds⟩, alike⟩

/-- A task that settles comes to its box from every state without overrides, with this fuel or more.
-/
theorem Settles.plain {fuel more : Nat} {box : Box} (settles : setting.Settles fuel task box)
    (le : fuel ≤ more) (same : task.Alike setting .blind twin) (run : Run)
    (free : run.overrides = []) :
    ∃ other after, Evaluation.run setting Guard.plain more twin run = some (other, after) ∧
      after.overrides = [] ∧ Alike .blind box other := by
  obtain ⟨after, ended⟩ := settles
  have corresponds : Run.Corresponds setting.policy (fun _ _ => True) {} run :=
    .of_calm calm rfl free trivial
  obtain ⟨other, final, twinEnds, after, alike⟩ :=
    (Evaluation.plain_more le same).elim corresponds ended
  exact ⟨other, final, twinEnds, after.overrides ▸ after.free calm, alike⟩

/-- A task settles to one box only, up to nodes, and so do all tasks that ask for the same. -/
theorem Settles.alike {fuel more : Nat} {box other : Box} (first : setting.Settles fuel task box)
    (second : setting.Settles more twin other) (same : task.Alike setting .blind twin) :
    Alike .blind box other := by
  obtain ⟨one, _, oneEnds, _, oneAlike⟩ :=
    first.plain calm (Nat.le_max_left fuel more) same {} rfl
  obtain ⟨two, _, twoEnds, _, twoAlike⟩ :=
    second.plain calm (Nat.le_max_right fuel more) (.refl twin) {} rfl
  obtain ⟨rfl, _⟩ := Prod.mk.inj (Option.some_inj.1 (oneEnds.symm.trans twoEnds))
  exact oneAlike.trans twoAlike.symm

end Calm

/-- Every value that is known is the one to which its goal settles. -/
def Sound (setting : Setting) (known : List (Goal × Box)) : Prop :=
  ∀ goal value, known.lookup goal = some value →
    ∀ task : Task, task.Within setting.project → task.goal? setting = some goal →
      ∃ fuel box, setting.Settles fuel task box ∧ Alike .blind box value

/-- Nothing is known wrongly where nothing is known. -/
theorem Sound.nil : setting.Sound [] := fun _ _ found => nomatch found

/-- A value to which a task settles may be kept for its goal. -/
theorem Sound.cons (calm : setting.policy.isStackSensitive = false)
    {known : List (Goal × Box)} (sound : setting.Sound known)
    (within : task.Within setting.project) {goal : Goal} (asked : task.goal? setting = some goal)
    {fuel : Nat} {box value : Box} (settles : setting.Settles fuel task box)
    (alike : Alike .blind box value) : setting.Sound ((goal, value) :: known) := by
  intro other stored found task' withinOther askedOther
  rw [List.lookup_cons] at found
  split at found
  · rename_i same
    obtain rfl := eq_of_beq same
    obtain rfl := Option.some_inj.1 found
    have twins := Task.alike_of_goal within withinOther asked askedOther
    obtain ⟨after, ended⟩ := settles
    obtain ⟨_, settled, settles, alikeSettled⟩ :=
      settles_of_plain calm (Nat.le_refl fuel) twins rfl ended
    exact ⟨fuel, settled, settles, alikeSettled.symm.trans alike⟩
  · exact sound other stored found task' withinOther askedOther

/-- Nothing is known of the goal of a task that never settles. -/
theorem Sound.lookup_eq_none {known : List (Goal × Box)} (sound : setting.Sound known)
    (within : task.Within setting.project) {goal : Goal} (asked : task.goal? setting = some goal)
    (never : ∀ fuel box, ¬setting.Settles fuel task box) : known.lookup goal = none := by
  cases found : known.lookup goal with
  | none => rfl
  | some value =>
    obtain ⟨fuel, box, settles, _⟩ := sound goal value found task within asked
    exact absurd settles (never fuel box)

end Setting

end Glean
