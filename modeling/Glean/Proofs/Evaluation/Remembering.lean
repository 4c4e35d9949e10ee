import Glean.Proofs.Evaluation.Plain

/-!
# What is remembered makes no difference

A value is kept only when no cycle was met while it was worked out. That alone makes it independent
of the goals that were in progress then: a run without cycles comes to the box that its task has
without any memory (`plain_of_uncached`), so a kept value is the one to which its goal settles
(`Setting.Sound`).

The converse splits the tasks in two. A task that settles comes to its box whatever is known and in
progress, because no goal on its way can be in progress, and it meets no cycle (`remembering_of_plain`).
A goal that does not settle always meets a cycle, so its value is never kept, and it is found in the
same way with and without what else is known (`remembering_of_uncached`).
-/

namespace Glean

open Syntax Box

variable {setting : Setting} (keep : Bool)

namespace Evaluation

/-- No task of the project with one of the goals settles within the fuel. -/
def Unsettled (setting : Setting) (fuel : Nat) (inProgress : List Goal) : Prop :=
  ∀ goal ∈ inProgress, ∀ task : Task, task.Within setting.project →
    task.goal? setting = some goal → ∀ box, ¬setting.Settles fuel task box

/-- The memory of an evaluation with the goals in progress, after that many cycles, in which
everything known is what its goal settles to. -/
def Trusted (setting : Setting) (inProgress : List Goal) (cycles : Nat) (memory : Memory) : Prop :=
  memory.inProgress = inProgress ∧ memory.cycles = cycles ∧ setting.Sound memory.known

section Calm

variable (calm : setting.policy.isStackSensitive = false)

include calm

/-- Goals that do not settle with some fuel do not settle with less. -/
theorem Unsettled.mono {fuel more : Nat} {inProgress : List Goal}
    (unsettled : Unsettled setting more inProgress) (le : fuel ≤ more) :
    Unsettled setting fuel inProgress := by
  intro goal entered task within asked box settles
  obtain ⟨after, ended⟩ := settles
  obtain ⟨_, other, settles, _⟩ := Setting.settles_of_plain calm le (.refl task) rfl ended
  exact unsettled goal entered task within asked other settles

/-- The goal of a task that does not settle may come into progress. -/
theorem Unsettled.cons {fuel : Nat} {inProgress : List Goal} {goal : Goal} {task : Task}
    (unsettled : Unsettled setting fuel inProgress) (within : task.Within setting.project)
    (asked : task.goal? setting = some goal) (never : ∀ box, ¬setting.Settles fuel task box) :
    Unsettled setting fuel (goal :: inProgress) := by
  intro other found twin withinTwin askedTwin box settles
  rcases List.mem_cons.1 found with rfl | found
  · obtain ⟨meaning, _, plainEnds, _⟩ := settles.plain calm (Nat.le_refl _)
      (Task.alike_of_goal withinTwin within askedTwin asked) {} rfl
    exact never meaning ⟨_, plainEnds⟩
  · exact unsettled other found twin withinTwin askedTwin box settles

omit calm in
/-- A trusted memory stays so when a goal is worked out and its value is kept only if it may be. -/
theorem Trusted.finish {inProgress : List Goal} {cycles : Nat} {run : Run} {goal : Goal}
    {value : Box} {kept : Bool}
    (trusted : Trusted setting (goal :: inProgress) cycles run.memory)
    (sound : kept = true → setting.Sound ((goal, value) :: run.known)) :
    Trusted setting inProgress cycles (run.finish goal value kept).memory := by
  obtain ⟨entered, met, known⟩ := trusted
  refine ⟨?_, met, ?_⟩
  · have entered : run.inProgress = goal :: inProgress := entered
    simp [Run.memory, Run.finish, entered]
  · simp only [Run.memory, Run.finish]
    split
    · rename_i kept
      exact sound kept
    · exact known

/-- A task that ends without a memory ends with one, whatever is known and in progress, as long as
no goal in progress settles. It comes to an alike box and meets no cycle, and what it adds to the
memory can be trusted. -/
theorem remembering_of_plain {fuel : Nat} {task twin : Task} {inProgress : List Goal}
    {cycles : Nat} (same : task.Alike setting .blind twin) (within : task.Within setting.project)
    (unsettled : Unsettled setting fuel inProgress) :
    (Comparison.simulation setting.policy .blind Memory.never fun _ memory =>
        Trusted setting inProgress cycles memory).Gives
      (run setting Guard.plain fuel task) (run setting (.remembering keep) fuel twin) := by
  induction fuel generalizing task twin inProgress with
  | zero => exact .of_failure _
  | succ fuel ih =>
    have unsettledBefore := unsettled.mono calm (Nat.le_succ fuel)
    have body : ∀ goals, Unsettled setting fuel goals →
        (Comparison.simulation setting.policy .blind Memory.never fun _ memory =>
            Trusted setting goals cycles memory).Gives
          (run setting Guard.plain (fuel + 1) task)
          (step setting Guard.plain (run setting (.remembering keep) fuel) twin) :=
      fun goals unsettled => Comparison.step_related _ same fun part other calls alike =>
        ih alike (calls.within within) unsettled
    cases asked : task.goal? setting with
    | none =>
      rw [run, run, step_eq setting _ _ twin, ← same.goal?, asked]
      exact body inProgress unsettledBefore
    | some goal =>
      have guarded : run setting (.remembering keep) (fuel + 1) twin = _ :=
        run_of_goal (same.goal?.symm.trans asked)
      refine .of_ends fun {left right after box} corresponds ended => ?_
      have free := corresponds.free calm
      have freeTwin := corresponds.overrides.symm.trans free
      obtain ⟨entered, met, sound⟩ := corresponds.memories
      obtain ⟨afterFree, meaning, settles, alike⟩ :=
        Setting.settles_of_plain calm (Nat.le_refl _) (.refl task) free ended
      cases known : right.known.lookup goal with
      | some value =>
        obtain ⟨_, other, settlesOther, alikeValue⟩ := sound goal value known task within asked
        have equal := Setting.Settles.alike calm settles settlesOther (.refl task)
        refine ⟨value, right, ?_, .of_calm calm afterFree freeTwin ⟨entered, met, sound⟩,
          alike.trans (equal.trans alikeValue)⟩
        rw [guarded]
        exact Eval.remembering_known known
      | none =>
        have fresh : goal ∉ right.inProgress := fun found =>
          unsettled goal (entered ▸ found) task within asked meaning settles
        by_cases early : ∃ box, setting.Settles fuel task box
        · -- The task ends with less fuel already, so its own goal need not be unsettled.
          obtain ⟨earlier, settlesEarly⟩ := early
          have equal := Setting.Settles.alike calm settles settlesEarly (.refl task)
          obtain ⟨first, _, firstEnds, _, alikeFirst⟩ :=
            settlesEarly.plain calm (Nat.le_refl _) (.refl task) left free
          obtain ⟨second, middle, secondEnds, middleCorresponds, alikeSecond⟩ :=
            (ih same within unsettledBefore).elim corresponds firstEnds
          have unchanged : right.Corresponds setting.policy Eq right :=
            .of_calm calm freeTwin freeTwin rfl
          obtain ⟨third, final, thirdEnds, finalCorresponds, alikeThird⟩ :=
            (run_more (Nat.le_succ fuel) (.refl twin)).elim unchanged secondEnds
          obtain rfl := alike_full.1 alikeThird
          have memory : middle.memory = final.memory := finalCorresponds.memories
          refine ⟨second, final, thirdEnds, .of_calm calm afterFree ?_ ?_, ?_⟩
          · exact finalCorresponds.overrides.symm.trans (finalCorresponds.free calm)
          · exact memory ▸ middleCorresponds.memories
          · exact alike.trans (equal.trans (alikeFirst.trans alikeSecond))
        · have unsettledNow : Unsettled setting fuel (goal :: inProgress) :=
            unsettledBefore.cons calm within asked fun box settles => early ⟨box, settles⟩
          have begun : left.Corresponds setting.policy
              (fun _ memory => Trusted setting (goal :: inProgress) cycles memory)
              (right.begin goal) :=
            .of_calm calm free freeTwin ⟨congrArg (goal :: ·) entered, met, sound⟩
          obtain ⟨value, middle, twinEnds, middleCorresponds, alikeValue⟩ :=
            (body _ unsettledNow).elim begun ended
          refine ⟨value, _, guarded ▸ Eval.remembering_begin known fresh twinEnds,
            .of_calm calm afterFree ?_ ?_, alikeValue⟩
          · exact middleCorresponds.overrides.symm.trans afterFree
          · refine Trusted.finish middleCorresponds.memories fun _ => ?_
            exact .cons calm middleCorresponds.memories.2.2 within asked settles
              (alike.symm.trans alikeValue)

end Calm

/-- A run that starts with an empty memory and keeps nothing either meets a cycle or comes to the box
that its task has without a memory. -/
theorem plain_of_uncached {fuel : Nat} {task twin : Task} {cycles : Nat}
    (same : task.Alike setting .blind twin) :
    (Comparison.simulation setting.policy .blind (fun memory => cycles < memory.cycles)
        fun memory _ => memory.cycles = cycles ∧ memory.known = []).Gives
      (run setting (.remembering false) fuel task) (run setting Guard.plain fuel twin) := by
  induction fuel generalizing task twin with
  | zero => exact .of_failure _
  | succ fuel ih =>
    have body : (Comparison.simulation setting.policy .blind (fun memory => cycles < memory.cycles)
          fun memory _ => memory.cycles = cycles ∧ memory.known = []).Gives
        (step setting Guard.plain (run setting (.remembering false) fuel) task)
        (run setting Guard.plain (fuel + 1) twin) :=
      Comparison.step_related _ same fun part other _ alike => ih alike
    rw [run, step_eq]
    cases task.goal? setting with
    | none => exact body
    | some goal =>
      -- First that a cycle, once met, stays counted; then that without one the box is the plain
      -- one.
      refine ⟨fun {left _ _} gone ended => ?_, fun {left right _ _} corresponds ended => ?_⟩
      · rcases Eval.remembering_cases ended with ⟨_, rfl⟩ | ⟨_, _, rfl, rfl⟩ |
          ⟨_, _, middle, started, rfl⟩
        · exact ⟨gone, _, rfl⟩
        · exact ⟨Nat.lt_succ_of_lt gone, _, rfl⟩
        · have begun : cycles < (left.begin goal).memory.cycles := gone
          have stays := body.stays begun started
          exact stays
      · obtain ⟨met, empty⟩ := corresponds.memories
        have met : left.cycles = cycles := met
        rcases Eval.remembering_cases ended with ⟨known, _⟩ | ⟨_, _, rfl, rfl⟩ |
          ⟨_, _, middle, started, rfl⟩
        · rw [show left.known = [] from empty] at known
          cases known
        · exact .inr ⟨met ▸ Nat.lt_succ_self _, _, rfl⟩
        · have begun : (left.begin goal).Corresponds setting.policy
              (fun memory _ => memory.cycles = cycles ∧ memory.known = []) right :=
            ⟨⟨met, empty⟩, corresponds.stack, corresponds.overrides, corresponds.free⟩
          rcases body.ends begun started with ⟨b, end', twinEnds, after, alike⟩ | gone
          · refine .inl ⟨b, end', twinEnds, ⟨?_, after.stack, after.overrides, after.free⟩, alike⟩
            obtain ⟨met, empty⟩ := after.memories
            exact ⟨met, by simpa [Run.memory, Run.finish] using empty⟩
          · exact .inr gone

/-- The memories of two evaluations with the same goals in progress. The first keeps nothing, what
the second knows can be trusted, and both have met as many cycles since they started. -/
def Paired (setting : Setting) (inProgress : List Goal) (ahead : Nat) (left right : Memory) : Prop :=
  left.inProgress = inProgress ∧ left.known = [] ∧ right.cycles = left.cycles + ahead ∧
    right.inProgress = inProgress ∧ setting.Sound right.known

/-- Paired memories stay so when a goal is worked out and neither value is kept. -/
theorem Paired.finish {inProgress : List Goal} {ahead : Nat} {left right : Run} {goal : Goal}
    {box value : Box} {kept : Bool}
    (paired : Paired setting (goal :: inProgress) ahead left.memory right.memory)
    (unkept : kept = false) :
    Paired setting inProgress ahead (left.finish goal box false).memory
      (right.finish goal value kept).memory := by
  obtain ⟨entered, empty, met, enteredTwin, sound⟩ := paired
  simp only [Run.memory] at entered empty met enteredTwin sound
  refine ⟨?_, empty, met, ?_, ?_⟩
  · simp [Run.memory, Run.finish, entered]
  · simp [Run.memory, Run.finish, enteredTwin]
  · simpa [Run.memory, Run.finish, unkept] using sound

section Calm

variable (calm : setting.policy.isStackSensitive = false)

include calm

/-- A run that keeps nothing and meets a cycle is one of a task that never settles. -/
theorem not_settles_of_cycle {fuel : Nat} {task : Task} {inProgress : List Goal} {left after : Run}
    {box : Box} (within : task.Within setting.project)
    (unsettled : ∀ fuel, Unsettled setting fuel inProgress) (free : left.overrides = [])
    (entered : left.inProgress = inProgress) (empty : left.known = [])
    (ended : run setting (.remembering false) fuel task left = some (box, after))
    (cycle : left.cycles < after.cycles) (more : Nat) (meaning : Box) :
    ¬setting.Settles more task meaning := by
  intro settles
  obtain ⟨_, _, plainEnds, _⟩ := settles.plain calm (Nat.le_refl _) (.refl task) left free
  have trusted : left.Corresponds setting.policy
      (fun _ memory => Trusted setting inProgress left.cycles memory) left :=
    .of_calm calm free free ⟨entered, rfl, show setting.Sound left.known from empty ▸ .nil⟩
  obtain ⟨_, middle, uncachedEnds, middleTrusted, _⟩ :=
    (remembering_of_plain false calm (.refl task) within (unsettled more)).elim trusted plainEnds
  have memory : after.memory = middle.memory := (run_unique (fun _ => free) ended uncachedEnds).2
  have met : after.cycles = left.cycles :=
    (congrArg Memory.cycles memory).trans middleTrusted.memories.2.1
  omega

/-- A run that keeps nothing and whose task settles comes to the same when more is known and may be
kept: both come to what the task settles to, and neither meets a cycle. -/
theorem remembering_of_settled {fuel : Nat} {task twin : Task} {inProgress : List Goal}
    {ahead : Nat} {left right after plain : Run} {box meaning : Box}
    (same : task.Alike setting .blind twin) (within : task.Within setting.project)
    (unsettled : Unsettled setting fuel inProgress)
    (corresponds : left.Corresponds setting.policy (Paired setting inProgress ahead) right)
    (ended : run setting (.remembering false) fuel task left = some (box, after))
    (plainEnds : run setting Guard.plain fuel task left = some (meaning, plain))
    (afterCorresponds : after.Corresponds setting.policy
      (fun memory _ => memory.cycles = left.cycles ∧ memory.known = []) plain)
    (alike : Alike .blind box meaning) :
    ∃ value final, run setting (.remembering keep) fuel twin right = some (value, final) ∧
      after.Corresponds setting.policy (Paired setting inProgress ahead) final ∧
        Alike .blind box value := by
  obtain ⟨entered, empty, ahead, enteredTwin, sound⟩ := corresponds.memories
  have free := corresponds.free calm
  have freeTwin := corresponds.overrides.symm.trans free
  have trusted : left.Corresponds setting.policy
      (fun _ memory => Trusted setting inProgress left.cycles memory) left :=
    .of_calm calm free free ⟨entered, rfl, empty ▸ .nil⟩
  obtain ⟨_, middle, uncachedEnds, middleTrusted, _⟩ :=
    (remembering_of_plain false calm (.refl task) within unsettled).elim trusted plainEnds
  obtain ⟨rfl, rfl⟩ := Prod.mk.inj (Option.some_inj.1 (ended.symm.trans uncachedEnds))
  have trustedTwin : left.Corresponds setting.policy
      (fun _ memory => Trusted setting inProgress right.cycles memory) right :=
    .of_calm calm free freeTwin ⟨enteredTwin, rfl, sound⟩
  obtain ⟨value, final, twinEnds, finalTrusted, alikeValue⟩ :=
    (remembering_of_plain keep calm same within unsettled).elim trustedTwin plainEnds
  obtain ⟨met, afterEmpty⟩ := afterCorresponds.memories
  obtain ⟨entered, _, _⟩ := middleTrusted.memories
  obtain ⟨enteredTwin, metTwin, sound⟩ := finalTrusted.memories
  refine ⟨value, final, twinEnds, .of_calm calm (afterCorresponds.free calm)
    (finalTrusted.overrides.symm.trans (finalTrusted.free calm)) ?_, alike.trans alikeValue⟩
  refine ⟨entered, afterEmpty, ?_, enteredTwin, sound⟩
  rw [metTwin, met]
  exact ahead

/-- A run that keeps nothing comes to an alike box when more is known and may be kept, as long as no
goal in progress ever settles. -/
theorem remembering_of_uncached {fuel : Nat} {task twin : Task} {inProgress : List Goal}
    {ahead : Nat} (same : task.Alike setting .blind twin) (within : task.Within setting.project)
    (unsettled : ∀ fuel, Unsettled setting fuel inProgress) :
    (Comparison.simulation setting.policy .blind Memory.never (Paired setting inProgress ahead)).Gives
      (run setting (.remembering false) fuel task) (run setting (.remembering keep) fuel twin) := by
  induction fuel generalizing task twin inProgress with
  | zero => exact .of_failure _
  | succ fuel ih =>
    have body : ∀ goals, (∀ fuel, Unsettled setting fuel goals) →
        (Comparison.simulation setting.policy .blind Memory.never (Paired setting goals ahead)).Gives
          (step setting Guard.plain (run setting (.remembering false) fuel) task)
          (step setting Guard.plain (run setting (.remembering keep) fuel) twin) :=
      fun goals unsettled => Comparison.step_related _ same fun part other calls alike =>
        ih alike (calls.within within) unsettled
    cases asked : task.goal? setting with
    | none =>
      rw [run, run, step_eq, step_eq setting _ _ twin, ← same.goal?, asked]
      exact body inProgress unsettled
    | some goal =>
      have askedTwin := same.goal?.symm.trans asked
      refine .of_ends fun {left right after box} corresponds ended => ?_
      have free := corresponds.free calm
      have freeTwin := corresponds.overrides.symm.trans free
      obtain ⟨entered, empty, ahead, enteredTwin, sound⟩ := corresponds.memories
      have started : left.Corresponds setting.policy
          (fun memory _ => memory.cycles = left.cycles ∧ memory.known = []) left :=
        .of_calm calm free free ⟨rfl, empty⟩
      rcases (plain_of_uncached (.refl task)).ends started ended with
        ⟨meaning, _, plainEnds, afterCorresponds, alike⟩ | ⟨cycle, _⟩
      · exact remembering_of_settled keep calm same within (unsettled _) corresponds ended plainEnds
          afterCorresponds alike
      · -- The task never settles, so nothing is known of its goal or kept for it.
        have never := not_settles_of_cycle calm within unsettled free entered empty ended cycle
        have unknown : right.known.lookup goal = none := sound.lookup_eq_none within asked never
        have unsettledNow : ∀ fuel, Unsettled setting fuel (goal :: inProgress) :=
          fun more => (unsettled more).cons calm within asked (never more)
        have sameGoals : left.inProgress = right.inProgress := entered.trans enteredTwin.symm
        rw [run_of_goal asked] at ended
        rw [run_of_goal askedTwin]
        rcases Eval.remembering_cases ended with ⟨known, _⟩ | ⟨_, found, rfl, rfl⟩ |
          ⟨_, fresh, middle, begunEnds, rfl⟩
        · rw [show left.known = [] from empty] at known
          cases known
        · refine ⟨_, _, Eval.remembering_cycle unknown ?_, .of_calm calm free freeTwin ?_, ?_⟩
          · exact sameGoals ▸ found
          · exact ⟨entered, empty, by simp only [Run.memory] at ahead ⊢; omega, enteredTwin, sound⟩
          · exact alike_unresolvable rfl .cycle
        · have begun : (left.begin goal).Corresponds setting.policy
              (Paired setting (goal :: inProgress) _) (right.begin goal) :=
            .of_calm calm free freeTwin ⟨congrArg (goal :: ·) entered, empty, ahead,
              congrArg (goal :: ·) enteredTwin, sound⟩
          obtain ⟨value, final, finalEnds, finalCorresponds, alikeValue⟩ :=
            (body _ unsettledNow).elim begun begunEnds
          have met : final.cycles = middle.cycles + _ := finalCorresponds.memories.2.2.1
          have unkept : ¬final.cycles = right.cycles := by
            simp only [Run.memory, Run.finish] at ahead cycle
            omega
          refine ⟨value, _, Eval.remembering_begin unknown (sameGoals ▸ fresh) finalEnds,
            .of_calm calm (finalCorresponds.free calm)
              (finalCorresponds.overrides.symm.trans (finalCorresponds.free calm)) ?_, alikeValue⟩
          simpa using Paired.finish finalCorresponds.memories (by simp [unkept])

end Calm

end Evaluation

end Glean
