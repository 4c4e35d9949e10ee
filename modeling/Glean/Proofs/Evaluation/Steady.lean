import Glean.Proofs.Evaluation.Cautious
import Glean.Proofs.Evaluation.Comparison

/-!
# Evaluation that keeps nothing leaves no trace

An evaluation that keeps no values gives the working state back as it was, apart from what was asked
and how many cycles were found (`Eval.Steady`), whether or not it is cautious. So it makes no
difference to the rest of an evaluation whether a part was evaluated before.
-/

namespace Glean

open Syntax Box

namespace Eval

variable {α : Type}

/-- Wherever the computation ends, it leaves the state as evaluations do and nothing more is known. -/
structure Steady (computation : Eval α) : Prop where
  returns : ∀ {run after : Run} {value : α}, computation run = some (value, after) →
    run.Returns after
  known : ∀ {run after : Run} {value : α}, computation run = some (value, after) →
    after.known = run.known

/-- What comes after a steady computation need only be steady for the values that come out of it. -/
theorem Steady.bind {β : Type} {computation : Eval α} {rest : α → Eval β}
    (steady : Steady computation)
    (others : ∀ {run after : Run} {value : α}, computation run = some (value, after) →
      Steady (rest value)) : Steady (computation >>= rest) where
  returns ended := by
    obtain ⟨⟨value, middle⟩, started, ended⟩ := Option.bind_eq_some_iff.1 ended
    exact (steady.returns started).trans ((others started).returns ended)
  known ended := by
    obtain ⟨⟨value, middle⟩, started, ended⟩ := Option.bind_eq_some_iff.1 ended
    exact ((others started).known ended).trans (steady.known started)

/-- A computation that only reads the state. -/
theorem Steady.read {computation : Eval α} {value : Run → α}
    (reads : ∀ run, computation run = some (value run, run)) : Steady computation where
  returns ended := by
    rw [reads] at ended
    obtain ⟨rfl, rfl⟩ := Prod.mk.inj (Option.some_inj.1 ended)
    exact .refl _
  known ended := by
    rw [reads] at ended
    obtain ⟨rfl, rfl⟩ := Prod.mk.inj (Option.some_inj.1 ended)
    rfl

/-- A value alone is steady. -/
theorem Steady.pure (value : α) : Steady (Pure.pure value) := .read fun _ => rfl

/-- Asking whether an expression is allowed is steady. -/
theorem Steady.allowed (policy : Policy) (expr : Expr) : Steady (Eval.allowed policy expr) where
  returns ended := by
    rw [allowed_apply] at ended
    split at ended <;> obtain ⟨rfl, rfl⟩ := Prod.mk.inj (Option.some_inj.1 ended)
    · exact .refl _
    · exact .gate ..
  known ended := by
    rw [allowed_apply] at ended
    split at ended <;> obtain ⟨rfl, rfl⟩ := Prod.mk.inj (Option.some_inj.1 ended) <;> rfl

/-- A steady computation is steady inside a node. -/
theorem Steady.inside {computation : Eval Box} (steady : Steady computation) (policy : Policy)
    (expr : Expr) (node : Reference) : Steady (Eval.inside policy expr node computation) where
  returns ended := by
    rw [inside_apply] at ended
    obtain ⟨⟨value, middle⟩, started, ended⟩ := Option.map_eq_some_iff.1 ended
    obtain ⟨rfl, rfl⟩ := Prod.mk.inj ended
    exact (steady.returns started).leave
  known ended := by
    rw [inside_apply] at ended
    obtain ⟨⟨value, middle⟩, started, ended⟩ := Option.map_eq_some_iff.1 ended
    obtain ⟨rfl, rfl⟩ := Prod.mk.inj ended
    have known := steady.known started
    exact known

/-- The second of two computations starts from the state from which the first one failed. -/
theorem orElse_eq_some {first second : Eval α} {run after : Run} {value : α}
    (ended : (first <|> second) run = some (value, after)) :
    first run = some (value, after) ∨ second run = some (value, after) := by
  change (first run <|> second run) = _ at ended
  cases started : first run with
  | none => exact .inr (by simpa [started] using ended)
  | some result => exact .inl (by simpa [started] using ended)

/-- A choice between steady computations is steady. -/
theorem Steady.orElse {first second : Eval α} (steady : Steady first) (other : Steady second) :
    Steady (first <|> second) where
  returns ended := (orElse_eq_some ended).elim steady.returns other.returns
  known ended := (orElse_eq_some ended).elim steady.known other.known

/-- A goal that is not kept is worked out steadily. -/
theorem Steady.remembering {computation : Eval Box} (steady : Steady computation) (goal : Goal)
    (node : Reference) : Steady (Guard.remembering false goal node computation) where
  returns ended := by
    rcases remembering_cases ended with ⟨_, rfl⟩ | ⟨_, _, _, rfl⟩ |
      ⟨unknown, _, middle, started, rfl⟩
    · exact .refl _
    · exact .cycle _
    · exact (steady.returns started).finish unknown
  known ended := by
    rcases remembering_cases ended with ⟨_, rfl⟩ | ⟨_, _, _, rfl⟩ | ⟨_, _, middle, started, rfl⟩
    · rfl
    · rfl
    · simpa [Run.finish, Run.begin] using steady.known started

end Eval

/-- Steady computations, whatever they are compared with. -/
def Comparison.steady (policy : Policy) : Comparison policy where
  view := .full
  Holds := fun related left _ =>
    left.Steady ∧ ∀ run after a, left run = some (a, after) → ∃ b, related a b
  value := fun related => ⟨.pure _, fun _ _ _ ended => by
    obtain ⟨rfl, _⟩ := Prod.mk.inj (Option.some_inj.1 ended)
    exact ⟨_, related⟩⟩
  bind := fun ⟨steady, values⟩ rest => by
    refine ⟨steady.bind fun started => ?_, fun run after c ended => ?_⟩
    · obtain ⟨b, alike⟩ := values _ _ _ started
      exact (rest _ b alike).1
    · obtain ⟨⟨a, middle⟩, started, ended⟩ := Option.bind_eq_some_iff.1 ended
      obtain ⟨b, alike⟩ := values _ _ _ started
      exact (rest a b alike).2 _ _ _ ended
  override? := fun name => ⟨.read (Eval.override?_apply · name), fun _ _ a _ => ⟨a, rfl⟩⟩
  helper? := fun name => ⟨.read (Eval.helper?_apply · name), fun _ _ a _ => ⟨a, rfl⟩⟩
  allowed := fun expr => ⟨.allowed policy expr, fun _ _ a _ => ⟨a, rfl⟩⟩
  inside := fun expr node _ _ ⟨steady, _⟩ => ⟨steady.inside policy expr node, fun _ _ a _ => ⟨a, rfl⟩⟩

namespace Evaluation

variable {setting : Setting} {next : Task → Eval Box} (steady : ∀ part, (next part).Steady)

include steady

/-- Steady parts give steady comparisons. -/
theorem steady_gives (part : Task) :
    (Comparison.steady setting.policy).Gives (next part) (next part) :=
  ⟨steady part, fun _ _ a _ => ⟨a, rfl⟩⟩

variable (setting)

/-- A step whose parts are steady is steady. -/
theorem step_steady (task : Task) : (step setting (.remembering false) next task).Steady := by
  have gives : (Comparison.steady setting.policy).Gives (step setting Guard.plain next task)
      (step setting Guard.plain next task) :=
    Comparison.step_related _ (.refl task)
      fun part _ _ _ => ⟨steady part, fun _ _ box _ => ⟨box, rfl⟩⟩
  have body : (step setting Guard.plain next task).Steady := gives.1
  rw [step_eq]
  cases task.goal? setting with
  | none => exact body
  | some goal => exact body.remembering goal _

/-- What a step does inside an expression is steady when the parts are. -/
theorem reduce_steady (scope : Scope) (expr : Expr) (node : Reference) :
    (reduce setting next scope expr node).Steady := by
  exact (Comparison.reduce_related (Comparison.steady setting.policy) scope node
    { inner := fun _ _ => steady_gives steady _
      name := fun _ _ _ => steady_gives steady _
      field := fun _ _ _ _ _ => steady_gives steady _ }).1

include setting in
/-- A template with steady parts is steady. -/
theorem template_steady (scope : Scope) (node : Reference) (done : String) (quasis : List Quasi)
    (interpolations : List Expr) :
    (template next scope node done quasis interpolations).Steady :=
  (Comparison.template_related (Comparison.steady setting.policy) scope node done
    fun _ _ => steady_gives steady _).1

include setting in
/-- A declared name is steady when its expressions are. -/
theorem declared_steady (scope : Scope) (binding : Variable) (node : Reference) :
    (declared next scope binding node).Steady :=
  (Comparison.declared_related (Comparison.steady setting.policy) rfl scope binding
    fun _ _ => steady_gives steady _).1

/-- What a declaration takes apart is steady when its expression is. -/
theorem initial_steady (scope : Scope) (binding : Variable) (node : Reference) :
    (initial next scope binding node).Steady := by
  unfold initial
  split
  · exact steady _
  · exact .pure _

/-- A search is steady when the exports that it asks for are. -/
theorem search_steady (scope : Scope) (name : String) (node : Reference) (sources : List String) :
    (search setting next scope name node sources).Steady :=
  (Comparison.search_related (Comparison.steady setting.policy) rfl scope name
    fun _ _ _ _ => steady_gives steady _).1

omit steady in
/-- Every evaluation that keeps nothing is steady. -/
theorem run_steady (fuel : Nat) (task : Task) :
    (run setting (.remembering false) fuel task).Steady := by
  induction fuel generalizing task with
  | zero => exact ⟨nofun, nofun⟩
  | succ fuel ih => exact step_steady setting ih task

/-- Whether a part is accepted is found steadily. -/
theorem accepted_steady (task part : Task) : (accepted setting next task part).Steady := by
  refine (steady part).bind fun _ => ?_
  split
  · exact .pure _
  · exact ⟨nofun, nofun⟩

omit steady in
/-- Cautious evaluation is steady. -/
theorem cautious_steady (depth : Nat) (task : Task) : (cautious setting depth task).Steady := by
  induction depth generalizing task with
  | zero => exact .pure _
  | succ depth ih =>
    exact (step_steady setting (accepted_steady setting ih task) task).orElse (.pure _)

end Evaluation

end Glean
