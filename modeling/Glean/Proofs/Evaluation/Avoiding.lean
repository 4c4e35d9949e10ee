import Glean.Proofs.Evaluation.Plain
import Glean.Proofs.Evaluation.Termination

/-!
# Evaluation that avoids texts

A text can come up in an evaluation as a name that a step stores or reads something under, and as a
value. Evaluation that avoids a text is the same evaluation, except that a step in which the text
comes up has no end. So an expression is evaluated without coming across a text when the evaluation
that avoids it ends (`Setting.Avoids`).
-/

namespace Glean

open Syntax Box

namespace Syntax

/-- The name that a key states. -/
def Key.names : Key → List String
  | .name text | .string text => [text]
  | .number value => [Number.text value]
  | .bigint digits => [digits]
  | .hidden text => [text]
  | .computed .. => []

/-- The name that a member states. -/
def Member.names : Member → List String
  | .shorthand _ id => [id.name]
  | .keyed _ key _ | .accessor _ _ key _ => key.names
  | .spread .. | .defaulted .. => []

/-- The names that an expression states for what it stores or reads. -/
def Expr.names : Expr → List String
  | .member _ _ key | .optionalMember _ _ key => key.names
  | .object _ members => members.flatMap Member.names
  | _ => []

end Syntax

/-- The names under which a step of a task stores or reads something. -/
def Task.names (setting : Setting) : Task → List String
  | .expr _ value => value.unwrap.names
  | .binding scope id _ =>
    match scope.binding? id with
    | some (.variable value) => value.path.map fun step => step.toKey.toText
    | _ => []
  | .exported .. => []
  | .whole path _ => Entries.keys (setting.project.scope path).exports

namespace Evaluation

variable (setting : Setting) (guard : Guard) (texts : String → Bool)

/-- Evaluates a task in at most `fuel` nested steps. A step has no end when one of the texts is a name
that it states, or its value. -/
def avoiding : Nat → Task → Eval Box
  | 0, _ => failure
  | fuel + 1, task => do
    if (task.names setting).any texts then failure
    else
      let box ← step setting guard (avoiding fuel) task
      if box.literal?.any fun value => texts value.toText then failure else pure box

variable {setting guard texts}

/-- Where an evaluation that avoids texts ends, a step does, and the texts do not come up in it. -/
theorem step_of_avoiding {fuel : Nat} {task : Task} {run after : Run} {box : Box}
    (ended : avoiding setting guard texts (fuel + 1) task run = some (box, after)) :
    step setting guard (avoiding setting guard texts fuel) task run = some (box, after) ∧
      (∀ name ∈ task.names setting, texts name = false) ∧
      ∀ value ∈ box.literal?, texts value.toText = false := by
  unfold avoiding at ended
  by_cases named : (task.names setting).any texts = true
  · rw [if_pos named] at ended
    cases ended
  · rw [if_neg named] at ended
    obtain ⟨⟨value, middle⟩, started, ended⟩ := Option.bind_eq_some_iff.1 ended
    by_cases valued : value.literal?.any (fun value => texts value.toText) = true
    · simp only [if_pos valued] at ended
      cases ended
    · simp only [if_neg valued] at ended
      obtain ⟨rfl, rfl⟩ := Prod.mk.inj (Option.some_inj.1 ended)
      refine ⟨started, fun name listed => ?_, fun literal held => ?_⟩
      · simpa using fun texts => named (List.any_eq_true.2 ⟨name, listed, texts⟩)
      · rw [Option.mem_def.1 held] at valued
        simpa using valued

/-- An evaluation that avoids texts and ends is an evaluation. -/
theorem avoiding_more {keep : Bool} {fuel more : Nat} {task twin : Task} (le : fuel ≤ more)
    (same : task.Alike setting .full twin) :
    (Comparison.simulation setting.policy .full Memory.never Eq).Gives
      (avoiding setting (.remembering keep) texts fuel task)
      (run setting (.remembering keep) more twin) := by
  induction fuel generalizing task twin more with
  | zero => exact .of_failure _
  | succ fuel ih =>
    obtain ⟨more, rfl⟩ : ∃ less, more = less + 1 := ⟨more - 1, by omega⟩
    have guarded : (Comparison.simulation setting.policy .full Memory.never Eq).Gives
        (step setting (.remembering keep) (avoiding setting (.remembering keep) texts fuel) task)
        (run setting (.remembering keep) (more + 1) twin) :=
      step_remembering same fun part other _ alike => ih (by omega) alike
    exact .of_ends fun corresponds ended => guarded.elim corresponds (step_of_avoiding ended).1

/-- An evaluation that avoids nothing is any evaluation. -/
theorem avoiding_nothing (setting : Setting) (guard : Guard) (fuel : Nat) :
    avoiding setting guard (fun _ => false) fuel = run setting guard fuel := by
  induction fuel with
  | zero => rfl
  | succ fuel ih =>
    funext task
    have names : (task.names setting).any (fun _ => false) = false := List.any_eq_false.2 (by simp)
    have values : ∀ box : Box, (box.literal?.any fun _ => false) = false := by
      intro box
      cases box.literal? <;> rfl
    rw [avoiding, run, names, if_neg Bool.false_ne_true, ih]
    simp only [values, Bool.false_eq_true, if_false]
    exact bind_pure _

end Evaluation

/-- None of the texts comes up when an expression of a file is evaluated. -/
def Setting.Avoids (setting : Setting) (texts : String → Bool) (file : Document) (expr : Expr) :
    Prop :=
  ∃ fuel, (Evaluation.avoiding setting setting.guard texts fuel (.expr file.scope expr) {}).isSome

/-- Nothing comes up that is to be avoided when there is no such text. -/
theorem Setting.avoids_nothing (setting : Setting) {file : Document} {path : Path}
    (found : setting.project.file? path = some file) (expr : Expr) :
    setting.Avoids (fun _ => false) file expr := by
  obtain ⟨box, after, _, _, ends⟩ := Setting.evaluate_of_found {} found expr
  refine ⟨setting.fuel expr, ?_⟩
  rw [Evaluation.avoiding_nothing, ends _ (Nat.le_refl _)]
  rfl

/-- The box of an expression is that of an evaluation that avoids texts, if this ends. -/
theorem Setting.evaluate_of_avoiding {setting : Setting} {texts : String → Bool} {file : Document}
    {path : Path} (found : setting.project.file? path = some file) {fuel : Nat} {expr : Expr}
    {box : Box} {after : Run}
    (ended : Evaluation.avoiding setting setting.guard texts fuel (.expr file.scope expr) {} =
      some (box, after)) :
    ((setting.evaluate path expr).run {}).1 = box := by
  obtain ⟨value, final, evaluated, _, ends⟩ := Setting.evaluate_of_found {} found expr
  have start : Run.Corresponds setting.policy Eq {} {} := ⟨rfl, fun _ => rfl, rfl, fun _ => rfl⟩
  obtain ⟨other, last, twin, _, alike⟩ :=
    (Evaluation.avoiding_more (Nat.le_max_left fuel (setting.fuel expr))
      (.refl (.expr file.scope expr))).elim start ended
  have same := (ends _ (Nat.le_max_right ..)).symm.trans twin
  obtain ⟨rfl, rfl⟩ := Prod.mk.inj (Option.some_inj.1 same)
  rw [evaluated]
  exact (alike_full.1 alike).symm

end Glean
