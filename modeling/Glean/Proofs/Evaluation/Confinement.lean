import Glean.Proofs.Evaluation.Termination

/-!
# Evaluation that stays in one file

When files are not entered, evaluating an expression of a file asks for expressions and bindings of
that file only, and looks up no text but its own. So it runs in the same way in every project that
holds the file (`Setting.evaluate_confined`).
-/

namespace Glean

open Syntax Box

/-- A task of one module that names no other. -/
inductive Task.Stays (scope : Scope) : Task → Prop where
  | expr (expr : Expr) : Stays scope (.expr scope expr)
  | binding (id : Id) (node : Reference) : Stays scope (.binding scope id node)

/-- Where no other module is led to, the parts of a task of the module are of the module. -/
theorem Task.Stays.part {setting : Setting} {scope : Scope} {task part : Task}
    (stays : task.Stays scope) (target : ∀ source, setting.target? scope source = none)
    (calls : setting.Calls task part) : part.Stays scope := by
  cases stays with
  | expr expr =>
    cases calls with
    | inner => exact .expr _
    | name => exact .binding _ _
    | field found => exact absurd ((target _).symm.trans found) nofun
  | binding id node =>
    cases calls with
    | value => exact .expr _
    | imported _ found => exact absurd ((target _).symm.trans found) nofun
    | importedWhole _ found => exact absurd ((target _).symm.trans found) nofun

/-- A task that stays in its module is like no other task. -/
theorem Task.Stays.eq_of_alike {setting : Setting} {scope : Scope} {task other : Task}
    (stays : task.Stays scope) (alike : task.Alike setting .full other) : task = other := by
  cases stays with
  | expr expr => cases alike; rfl
  | binding id node =>
    cases alike with
    | binding _ _ nodes => rw [Option.some_inj.1 nodes]

/-- Two settings go equally far, find the same text in a module, and lead from it to no other. -/
structure Setting.Confined (left right : Setting) (scope : Scope) : Prop where
  policy : left.policy = right.policy
  snippet : ∀ span, left.snippet? scope span = right.snippet? scope span
  target : ∀ source, left.target? scope source = none
  targetOther : ∀ source, right.target? scope source = none

/-- Computations that come to the same from every state, with related values, or do not end. -/
def Eval.Equal {α β : Type} (related : α → β → Prop) (left : Eval α) (right : Eval β) : Prop :=
  ∀ run, Option.Rel (fun first second => related first.1 second.1 ∧ first.2 = second.2) (left run)
    (right run)

namespace Eval.Equal

variable {α β γ δ : Type} {related : α → β → Prop}

/-- Equal computations followed by equal ones are equal. -/
theorem bind {after : γ → δ → Prop} {left : Eval α} {right : Eval β} {leftNext : α → Eval γ}
    {rightNext : β → Eval δ} (first : Equal related left right)
    (rest : ∀ a b, related a b → Equal after (leftNext a) (rightNext b)) :
    Equal after (left >>= leftNext) (right >>= rightNext) := by
  intro run
  have started := first run
  rw [bind_apply, bind_apply]
  generalize left run = one at started
  generalize right run = two at started
  cases started with
  | none => exact .none
  | @some one two same =>
    obtain ⟨a, middle⟩ := one
    obtain ⟨b, other⟩ := two
    obtain ⟨alike, rfl⟩ := same
    exact rest a b alike middle

/-- A computation is equal to itself, whatever relation its values are in to themselves. -/
theorem refl {related : α → α → Prop} (reflexive : ∀ value, related value value)
    (computation : Eval α) : Equal related computation computation := by
  intro run
  cases computation run with
  | none => exact .none
  | some ended => exact .some ⟨reflexive ended.1, rfl⟩

/-- Equal computations are equal inside a node. -/
theorem inside {left right : Eval Box} {related : Box → Box → Prop}
    (inner : Equal related left right) (policy : Policy) (expr : Expr) (node : Reference) :
    Equal related (Eval.inside policy expr node left) (Eval.inside policy expr node right) := by
  intro run
  have started := inner (run.enter node (policy.overridesFor expr run.stack))
  rw [inside_apply, inside_apply]
  generalize left _ = one at started
  generalize right _ = two at started
  cases started with
  | none => exact .none
  | some same => exact .some ⟨same.1, congrArg (Run.leave · _) same.2⟩

/-- Computations that come to the same values from every state are one computation. -/
theorem eq {left right : Eval α} (equal : Equal Eq left right) : left = right := by
  funext run
  have same := equal run
  generalize left run = one at same
  generalize right run = two at same
  cases same with
  | none => rfl
  | some same => exact congrArg some (Prod.ext same.1 same.2)

end Eval.Equal

/-- Computations that come to equal boxes in equal states. -/
def Comparison.equal (policy : Policy) : Comparison policy where
  view := .full
  Holds := Eval.Equal
  value := fun related _ => .some ⟨related, rfl⟩
  bind := Eval.Equal.bind
  override? := fun _ => .refl (fun _ => rfl) _
  helper? := fun _ => .refl (fun _ => rfl) _
  allowed := fun _ => .refl (fun _ => rfl) _
  inside := fun expr node _ _ inner => inner.inside policy expr node

namespace Evaluation

variable {left right : Setting} {scope : Scope} (confined : left.Confined right scope)
  (next : Task → Eval Box)

include confined

/-- The texts of a key are the same in confined settings. -/
theorem keyText_confined (key : Key) :
    keyText left next scope key = keyText right next scope key := by
  cases key <;> simp only [keyText, Setting.sourceOfKey, confined.snippet]

/-- The members of an object are the same in confined settings. -/
theorem members_confined (node : Reference) (entries : Entries String Box) (list : List Member) :
    members left next scope node entries list = members right next scope node entries list := by
  induction list generalizing entries with
  | nil => rfl
  | cons first rest ih =>
    have same : member left next scope node entries first =
        member right next scope node entries first := by
      cases first <;>
        simp only [member, keyText_confined confined, Setting.sourceOfSpread, confined.snippet]
    simp only [members, same, ih]

/-- An access is the same in confined settings. -/
theorem access_confined (base : Expr) (key : Key) (node : Reference) :
    access left next scope base key node = access right next scope base key node := by
  have same : ∀ value, read left next scope base value node =
      read right next scope base value node := by
    intro value
    simp only [read, confined.target, confined.targetOther]
  cases key <;> simp only [access, same]

/-- An expression is the same in confined settings, gate and flags included. -/
theorem expression_confined (expr : Expr) :
    expression left next scope expr = expression right next scope expr := by
  have reduced : ∀ (part : Expr) node, reduce left next scope part node =
      reduce right next scope part node := by
    intro part node
    cases part with
    | object => simp only [reduce, members_confined confined]
    | member | optionalMember => simp only [reduce, access_confined confined]
    | conditional => simp only [reduce, conditional, confined.policy]
    | logical => simp only [reduce, logical, confined.policy]
    | unary _ operator => cases operator <;> rfl
    | _ => rfl
  simp only [expression, reduced, confined.policy]

/-- A step looks at nothing outside the module. -/
theorem step_confined (guard : Guard) {task : Task} (stays : task.Stays scope) :
    step left guard next task = step right guard next task := by
  cases stays with
  | expr expr => exact expression_confined confined next expr
  | binding id node =>
    simp only [step, binding, forward, confined.target, confined.targetOther]

omit next in
/-- Tasks of the module run in the same way in both settings. -/
theorem run_confined (keep : Bool) (fuel : Nat) {task : Task} (stays : task.Stays scope) :
    run left (.remembering keep) fuel task = run right (.remembering keep) fuel task := by
  induction fuel generalizing task with
  | zero => rfl
  | succ fuel ih =>
    let next := run left (.remembering keep) fuel
    let other := run right (.remembering keep) fuel
    have parts : ∀ part twin, right.Calls task part → part.Alike right .full twin →
        (Comparison.equal right.policy).Gives (next part) (other twin) := by
      intro part twin calls alike
      have inner := stays.part confined.targetOther calls
      obtain rfl := inner.eq_of_alike alike
      simp only [next, other, ih inner]
      exact .refl Alike.refl _
    have body : step right Guard.plain next task = step right Guard.plain other task := by
      have equal : Eval.Equal (Alike .full) (step right Guard.plain next task)
          (step right Guard.plain other task) :=
        Comparison.step_related (Comparison.equal right.policy) (.refl task) parts
      have same : (Alike .full : Box → Box → Prop) = Eq := by
        funext first second
        exact propext alike_full
      rw [same] at equal
      exact equal.eq
    calc
      step left (.remembering keep) next task
      _ = step right (.remembering keep) next task := step_confined confined next _ stays
      _ = step right (.remembering keep) other task := by rw [step_eq, body, ← step_eq]

end Evaluation

namespace Setting

variable {policy : Policy} {project other : Project} {path : Path} {file : Document}

/-- When files are not entered, two projects with the same file confine evaluation to it. -/
theorem confined_of_found (skips : policy.flags.skipFiles = true)
    (found : project.file? file.path = some file) (foundOther : other.file? file.path = some file) :
    Confined { project, policy } { project := other, policy } file.scope where
  policy := rfl
  snippet span := by
    have place : file.scope.file = file.path := file.scope_file
    simp only [snippet?, place, found, foundOther]
  target source := by simp [target?, skips]
  targetOther source := by simp [target?, skips]

/-- An expression of a file is evaluated in the same way, from every state, in all projects that hold
the file, when files are not entered. -/
theorem evaluate_confined (skips : policy.flags.skipFiles = true)
    (found : project.file? file.path = some file) (foundOther : other.file? file.path = some file)
    (expr : Expr) :
    evaluate { project, policy } file.path expr =
      evaluate { project := other, policy } file.path expr := by
  have confined := confined_of_found skips found foundOther
  funext run
  have first : (Setting.mk project policy).project.file? file.path = some file := found
  have second : (Setting.mk other policy).project.file? file.path = some file := foundOther
  obtain ⟨box, after, evaluated, _, ends⟩ := evaluate_of_found run first expr
  obtain ⟨value, final, evaluatedOther, _, endsOther⟩ := evaluate_of_found run second expr
  let fuel := max (Setting.fuel { project, policy } expr)
    (Setting.fuel { project := other, policy } expr)
  have ended := ends fuel (Nat.le_max_left ..)
  have endedOther := endsOther fuel (Nat.le_max_right ..)
  have same := congrFun (Evaluation.run_confined confined (!policy.isStackSensitive) fuel
    (.expr expr)) run
  have equal : (box, after) = (value, final) :=
    Option.some_inj.1 (ended.symm.trans (same.trans endedOther))
  exact evaluated.trans (equal.trans evaluatedOther.symm)

end Setting

end Glean
