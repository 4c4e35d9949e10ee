import Glean.Proofs.Evaluation.Covering
import Glean.Proofs.Evaluation.Plain

/-!
# Values that stand for other values

Under a policy that does not look at nodes, `Setting.ComesTo` is the box of a task without a memory,
up to nodes, where it has one. A name, an import or a member comes to what the task comes to that it
stands for (`Setting.Follows`), so what such a chain comes to can be told from either end.
-/

namespace Glean

open Syntax Box

namespace Setting

variable {setting : Setting} {scope : Scope} {task twin part : Task} {box other : Box}
  {change : Box → Box}

/-- Without a memory the task comes to a box that looks like the given one, apart from nodes. -/
def ComesTo (setting : Setting) (task : Task) (box : Box) : Prop :=
  ∃ fuel settled, setting.Settles fuel task settled ∧ Alike .blind settled box

/-- The task is worked out by its part alone, whose box is changed. -/
def Follows (setting : Setting) (task part : Task) (change : Box → Box) : Prop :=
  ∀ fuel run, run.overrides = [] → ∃ middle : Run, middle.overrides = [] ∧
    (Evaluation.run setting Guard.plain (fuel + 1) task run).map Prod.fst =
      (Evaluation.run setting Guard.plain fuel part middle).map (change ∘ Prod.fst)

/-- A task comes to every box that looks like the one it comes to. -/
theorem ComesTo.congr (comes : setting.ComesTo task box) (alike : Alike .blind box other) :
    setting.ComesTo task other := by
  obtain ⟨fuel, settled, settles, alikeBox⟩ := comes
  exact ⟨fuel, settled, settles, alikeBox.trans alike⟩

section Calm

variable (calm : setting.policy.isStackSensitive = false)

include calm

/-- A task comes to the box of any run without a memory. -/
theorem comesTo_of_plain {fuel : Nat} {run after : Run} (free : run.overrides = [])
    (ended : Evaluation.run setting Guard.plain fuel task run = some (box, after)) :
    setting.ComesTo task box := by
  obtain ⟨_, settled, settles, alike⟩ :=
    settles_of_plain calm (Nat.le_refl fuel) (.refl task) free ended
  exact ⟨fuel, settled, settles, alike.symm⟩

/-- A task that comes to a box does so from every state without overrides. -/
theorem ComesTo.plain (comes : setting.ComesTo task box) :
    ∃ fuel, ∀ run : Run, run.overrides = [] → ∃ settled after,
      Evaluation.run setting Guard.plain fuel task run = some (settled, after) ∧
        Alike .blind settled box := by
  obtain ⟨fuel, settled, settles, alike⟩ := comes
  refine ⟨fuel, fun run free => ?_⟩
  obtain ⟨here, after, ended, _, alikeHere⟩ :=
    settles.plain calm (Nat.le_refl fuel) (.refl task) run free
  exact ⟨here, after, ended, alikeHere.symm.trans alike⟩

/-- Tasks that ask for the same come to boxes that look the same. -/
theorem ComesTo.alike (first : setting.ComesTo task box) (second : setting.ComesTo twin other)
    (same : task.Alike setting .blind twin) : Alike .blind box other := by
  obtain ⟨_, one, settlesOne, alikeOne⟩ := first
  obtain ⟨_, two, settlesTwo, alikeTwo⟩ := second
  exact alikeOne.symm.trans ((settlesOne.alike calm settlesTwo same).trans alikeTwo)

/-- Tasks that ask for the same come to the same box. -/
theorem ComesTo.transfer (comes : setting.ComesTo task box) (same : task.Alike setting .blind twin) :
    setting.ComesTo twin box := by
  obtain ⟨fuel, settled, ⟨after, ended⟩, alike⟩ := comes
  obtain ⟨_, other, settles, alikeOther⟩ :=
    settles_of_plain calm (Nat.le_refl fuel) same rfl ended
  exact ⟨fuel, other, settles, alikeOther.symm.trans alike⟩

/-- A task comes to what its part comes to, changed. -/
theorem Follows.comesTo_iff (follows : setting.Follows task part change)
    (respects : ∀ {left right}, Alike .blind left right → Alike .blind (change left) (change right)) :
    setting.ComesTo task box ↔ ∃ inner, setting.ComesTo part inner ∧
      Alike .blind (change inner) box := by
  constructor
  · rintro ⟨fuel, settled, ⟨after, ended⟩, alike⟩
    cases fuel with
    | zero => cases ended
    | succ fuel =>
      obtain ⟨middle, free, same⟩ := follows fuel {} rfl
      rw [ended] at same
      obtain ⟨⟨inner, last⟩, started, rfl⟩ := Option.map_eq_some_iff.1 same.symm
      exact ⟨inner, comesTo_of_plain calm free started, alike⟩
  · rintro ⟨inner, comes, alike⟩
    obtain ⟨fuel, ends⟩ := comes.plain calm
    obtain ⟨middle, free, same⟩ := follows fuel {} rfl
    obtain ⟨here, _, ended, alikeHere⟩ := ends middle free
    rw [ended] at same
    obtain ⟨⟨settled, after⟩, ended, rfl⟩ := Option.map_eq_some_iff.1 same
    exact ⟨fuel + 1, _, ⟨after, ended⟩, (respects alikeHere).trans alike⟩

/-- A task that is its part comes to what the part comes to. -/
theorem Follows.comesTo (follows : setting.Follows task part id) :
    setting.ComesTo task box ↔ setting.ComesTo part box := by
  refine (follows.comesTo_iff calm fun alike => alike).trans ⟨?_, fun comes => ⟨box, comes, rfl⟩⟩
  rintro ⟨inner, comes, alike⟩
  exact comes.congr alike

section Expressions

variable (evaluates : setting.policy.flags.skipEvaluate = false)

include evaluates

/-- Evaluating an expression is reducing it within its own node. -/
theorem plain_expression {expr : Expr} (bare : expr.unwrap = expr) (fuel : Nat) (run : Run) :
    Evaluation.run setting Guard.plain (fuel + 1) (.expr scope expr) run =
      (Evaluation.reduce setting (Evaluation.run setting Guard.plain fuel) scope expr
        (scope.refer expr.span) (run.enter (scope.refer expr.span) none)).map
          fun (box, after) => (box, after.leave none) := by
  have ungated : setting.policy.gate = none := Policy.gate_eq_none calm
  rw [Evaluation.run_expr ungated evaluates, bare, Run.Corresponds.overridesFor_eq_none calm]

/-- An expression that is reduced to its part is worked out by it. -/
theorem follows_of_reduce {expr : Expr} (bare : expr.unwrap = expr)
    (reduced : ∀ fuel run, run.overrides = [] →
      (Evaluation.reduce setting (Evaluation.run setting Guard.plain fuel) scope expr
        (scope.refer expr.span) run).map Prod.fst =
          (Evaluation.run setting Guard.plain fuel part run).map (change ∘ Prod.fst)) :
    setting.Follows (.expr scope expr) part change := by
  intro fuel run free
  refine ⟨run.enter (scope.refer expr.span) none, free, ?_⟩
  rw [plain_expression calm evaluates bare, ← reduced fuel (run.enter _ none) free, Option.map_map]
  rfl

/-- A bound name stands for its binding. -/
theorem follows_name {name : Id} (bound : (scope.binding? name).isSome) (span : Span) :
    setting.Follows (.expr scope (.ident span name)) (.binding scope name (scope.refer span)) id := by
  refine follows_of_reduce calm evaluates rfl fun fuel run free => ?_
  simp only [Evaluation.reduce, Evaluation.name, Eval.bind_apply, Eval.override?_of_free _ free,
    Option.bind_some, bound, if_true]
  rfl

/-- A member of all exports of a module stands for the one export. -/
theorem follows_field {name : Id} {source : String} {path : Path}
    (bound : scope.binding? name = some (.imported source .whole))
    (target : setting.target? scope source = some path) (span inner : Span) (key : String) :
    setting.Follows (.expr scope (.member span (.ident inner name) (.name key)))
      (.exported path key (scope.refer span)) id := by
  refine follows_of_reduce calm evaluates rfl fun fuel run free => ?_
  simp only [Evaluation.reduce, Evaluation.access, Evaluation.read, Expr.unwrap,
    Evaluation.wholeImport?, Eval.bind_apply, Eval.override?_of_free _ free, Option.bind_some, bound,
    Eval.pure_apply, target]
  rfl

/-- A member of any other name is read from what the name comes to. -/
theorem follows_member {name : Id}
    (ordinary : ∀ source, scope.binding? name ≠ some (.imported source .whole))
    (span inner : Span) (key : String) :
    setting.Follows (.expr scope (.member span (.ident inner name) (.name key)))
      (.expr scope (.ident inner name)) (·.read (.string key) (scope.refer span)) := by
  refine follows_of_reduce calm evaluates rfl fun fuel run free => ?_
  have none : Evaluation.wholeImport? scope (Expr.ident inner name).unwrap run = some (none, run) :=
    Evaluation.wholeImport?_of_ordinary (Eval.override?_of_free _ free) ordinary
  rw [Evaluation.reduce, Evaluation.access, Evaluation.read_of_value none, Option.map_map]
  rfl

end Expressions

omit calm in
/-- A declared name without a default is a part of the declared value. -/
theorem follows_declaration {name : Id} {init : Expr} {steps : List Step}
    (bound : scope.binding? name = some (.variable ⟨some init, steps, none⟩))
    (constant : scope.isReassigned name = false) (node : Reference) :
    setting.Follows (.binding scope name node) (.expr scope init)
      (Variable.part ⟨some init, steps, none⟩ node) := by
  intro fuel run free
  refine ⟨run, free, ?_⟩
  simp only [Evaluation.run, Evaluation.step, Evaluation.binding, bound, constant, Guard.plain,
    Bool.false_eq_true, if_false, Evaluation.declared, Evaluation.initial, Eval.bind_apply]
  cases Evaluation.run setting Guard.plain fuel (.expr scope init) run <;> rfl

omit calm in
/-- An import of all exports stands for all exports of the module. -/
theorem follows_import {name : Id} {source : String} {path : Path}
    (bound : scope.binding? name = some (.imported source .whole))
    (target : setting.target? scope source = some path) (node : Reference) :
    setting.Follows (.binding scope name node) (.whole path node) id := by
  intro fuel run free
  refine ⟨run, free, ?_⟩
  simp only [Evaluation.run, Evaluation.step, Evaluation.binding, bound, Evaluation.forward, target,
    Imported.exportName?]
  rfl

/-- All exports of a module are the exports that it states, each with what it comes to. -/
theorem ComesTo.whole {path : Path} {node : Reference}
    (comes : setting.ComesTo (.whole path node) box) :
    ∃ entries, Alike .blind (.map entries none) box ∧
      Entries.keys entries = Entries.keys (setting.project.scope path).exports ∧
      ∀ entry ∈ entries, setting.ComesTo
        (.exported (setting.project.scope path).file entry.1 node) entry.2 := by
  obtain ⟨fuel, settled, ⟨after, ended⟩, alike⟩ := comes
  cases fuel with
  | zero => cases ended
  | succ fuel =>
    -- By induction on the names, each worked out in the state that the one before it left.
    have listed : ∀ (names : List String) (run after : Run) (entries : List (String × Box)),
        run.overrides = [] →
        Evaluation.exports (Evaluation.run setting Guard.plain fuel)
          (setting.project.scope path).file node names run = some (entries, after) →
        Entries.keys entries = names ∧ ∀ entry ∈ entries, setting.ComesTo
          (.exported (setting.project.scope path).file entry.1 node) entry.2 := by
      intro names
      induction names with
      | nil =>
        rintro run after entries free ended
        obtain ⟨rfl, _⟩ := Prod.mk.inj (Option.some_inj.1 ended)
        exact ⟨rfl, nofun⟩
      | cons name rest ih =>
        intro run after entries free ended
        obtain ⟨⟨value, middle⟩, first, ended⟩ := Option.bind_eq_some_iff.1 ended
        obtain ⟨⟨others, last⟩, following, ended⟩ := Option.bind_eq_some_iff.1 ended
        obtain ⟨rfl, _⟩ := Prod.mk.inj (Option.some_inj.1 ended)
        have freeAfter :=
          (settles_of_plain calm (Nat.le_refl fuel) (.refl _) free first).1
        obtain ⟨keys, each⟩ := ih middle last others freeAfter following
        refine ⟨congrArg (name :: ·) keys, fun entry found => ?_⟩
        rcases List.mem_cons.1 found with rfl | found
        · exact comesTo_of_plain calm free first
        · exact each entry found
    obtain ⟨⟨entries, last⟩, found, ended⟩ := Option.bind_eq_some_iff.1 ended
    obtain ⟨rfl, _⟩ := Prod.mk.inj (Option.some_inj.1 ended)
    obtain ⟨keys, each⟩ := listed _ {} last entries rfl found
    exact ⟨entries, (alike_map rfl rfl : Alike .blind (.map entries none) _).trans alike, keys, each⟩

end Calm

end Setting

end Glean
