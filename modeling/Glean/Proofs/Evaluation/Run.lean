import Glean.Evaluation.Run

/-!
# What computations do to the working state

Each law gives the end of a computation from a state: its value and the state after it, or nothing
when it runs out of fuel. `Run.Returns` says what a whole evaluation leaves of the state.
-/

namespace Glean

open Syntax (Expr)

namespace Eval

variable {α β : Type} (run : Run)

/-- A value alone leaves the state as it is. -/
@[simp]
theorem pure_apply (value : α) : (pure value : Eval α) run = some (value, run) := rfl

/-- A computation hands its value and its state to the next one. -/
theorem bind_apply (computation : Eval α) (next : α → Eval β) :
    (computation >>= next) run = (computation run).bind fun (value, after) => next value after :=
  rfl

/-- An override is looked up in the environments in force, and the state stays. -/
@[simp]
theorem override?_apply (name : String) :
    Eval.override? name run =
      some (run.overrides.findSome? fun overrides => Entries.get? overrides.environment name, run) :=
  rfl

/-- A helper is looked up among the helpers in force, and the state stays. -/
@[simp]
theorem helper?_apply (name : String) :
    Eval.helper? name run =
      some (run.overrides.findSome? fun overrides => Entries.get? overrides.helpers name, run) :=
  rfl

variable {run} in
/-- Without overrides no name is overridden. -/
theorem override?_of_free (name : String) (free : run.overrides = []) :
    Eval.override? name run = some (none, run) := by
  rw [override?_apply, free]
  rfl

variable {run} in
/-- Without overrides no call is folded. -/
theorem helper?_of_free (name : String) (free : run.overrides = []) :
    Eval.helper? name run = some (none, run) := by
  rw [helper?_apply, free]
  rfl

/-- The gate is asked about the expression and the nodes around it, and the question is kept. -/
theorem allowed_apply (policy : Policy) (expr : Expr) :
    Eval.allowed policy expr run =
      match policy.gate with
      | none => some (true, run)
      | some gate => some (gate expr run.stack,
          { run with events := .gate expr run.stack (gate expr run.stack) :: run.events }) := by
  unfold Eval.allowed
  cases policy.gate <;> rfl

/-- Evaluates within a node, with the overrides of an expression in force. -/
def inside (policy : Policy) (expr : Expr) (node : Reference) (computation : Eval Box) :
    Eval Box := do
  let run ← get
  Eval.overriding (policy.overridesFor expr run.stack) (Run.within node computation)

end Eval

/-- The question to a matcher, if the event is one. -/
def Event.question? : Event → Option Question
  | .question asked => some asked
  | .gate .. => none

namespace Run

/-- What the matchers were asked, in the order of asking. -/
def questions (run : Run) : List Question := run.events.reverse.filterMap Event.question?

/-- A question to a matcher is the last that was asked. -/
theorem questions_question (run : Run) (question : Question) :
    questions { run with events := .question question :: run.events } =
      run.questions ++ [question] := by
  simp [questions, Event.question?]

/-- Asking the gate is no question to a matcher. -/
theorem questions_gate (run : Run) (expr : Expr) (stack : List Reference) (allowed : Bool) :
    questions { run with events := .gate expr stack allowed :: run.events } = run.questions := by
  simp [questions, Event.question?]

/-- The state inside a node, with overrides in force if there are any. -/
def enter (run : Run) (node : Reference) (overrides : Option Overrides) : Run :=
  { run with
    stack := node :: run.stack
    overrides := overrides.toList ++ run.overrides }

/-- The state after a node and its overrides are left. -/
def leave (run : Run) (overrides : Option Overrides) : Run :=
  { run with
    stack := run.stack.tail
    overrides := run.overrides.drop overrides.toList.length }

/-- The state in which a goal is worked out. -/
def begin (run : Run) (goal : Goal) : Run := { run with inProgress := goal :: run.inProgress }

/-- The state after a goal is worked out, and the value is kept if it may be. -/
def finish (run : Run) (goal : Goal) (value : Box) (kept : Bool) : Run :=
  { run with
    inProgress := run.inProgress.erase goal
    known := if kept then (goal, value) :: run.known else run.known }

end Run

namespace Eval

variable (run : Run)

/-- Within a node, a computation runs with the node around it. -/
theorem within_apply (node : Reference) (computation : Eval Box) :
    Run.within node computation run =
      (computation { run with stack := node :: run.stack }).map
        fun (box, after) => (box, { after with stack := after.stack.tail }) := by
  change ((computation { run with stack := node :: run.stack }).bind
    fun (box, after) => some (box, { after with stack := after.stack.tail })) = _
  cases computation { run with stack := node :: run.stack } <;> rfl

/-- Inside a node, a computation runs with the node around it and the overrides of the expression in
force, and both are left at its end. -/
theorem inside_apply (policy : Policy) (expr : Expr) (node : Reference)
    (computation : Eval Box) :
    Eval.inside policy expr node computation run =
      (computation (run.enter node (policy.overridesFor expr run.stack))).map
        fun (box, after) => (box, after.leave (policy.overridesFor expr run.stack)) := by
  change Eval.overriding (policy.overridesFor expr run.stack) (Run.within node computation) run = _
  cases policy.overridesFor expr run.stack with
  | none => exact within_apply run node computation
  | some overrides =>
    change ((Run.within node computation { run with overrides := overrides :: run.overrides }).bind
      fun (box, after) => some (box, { after with overrides := after.overrides.tail })) = _
    rw [within_apply]
    change ((computation (run.enter node (some overrides))).map _).bind _ = _
    cases computation (run.enter node (some overrides)) with
    | none => rfl
    | some ended => simp [Run.leave]

/-- A value that is known is taken, a goal in progress is a cycle, and any other is worked out. -/
theorem remembering_apply (keep : Bool) (goal : Goal) (node : Reference)
    (computation : Eval Box) :
    Guard.remembering keep goal node computation run =
      match run.known.lookup goal with
      | some value => some (value, run)
      | none =>
        if goal ∈ run.inProgress then
          some (.unresolvable .cycle (some node), { run with cycles := run.cycles + 1 })
        else
          (computation (run.begin goal)).map fun (value, after) =>
            (value, after.finish goal value (after.cycles = run.cycles ∧ keep)) := by
  simp only [Guard.remembering, bind_apply]
  change (match run.known.lookup goal with
    | some value => _
    | none => _ : Eval Box) run = _
  cases run.known.lookup goal with
  | some value => rfl
  | none =>
    by_cases entered : goal ∈ run.inProgress
    · simp only [entered, if_true]
      rfl
    · simp only [entered, if_false]
      change ((computation (run.begin goal)).bind fun (value, after) => some (value,
        { after with
          inProgress := after.inProgress.erase goal
          known :=
            if after.cycles = run.cycles ∧ keep then (goal, value) :: after.known
            else after.known })) = _
      cases computation (run.begin goal) with
      | none => rfl
      | some ended => simp [Run.finish]

section Guard

variable {run} {keep : Bool} {goal : Goal} {node : Reference} {computation : Eval Box}

/-- A goal that is known comes to its value. -/
theorem remembering_known {value : Box} (known : run.known.lookup goal = some value) :
    Guard.remembering keep goal node computation run = some (value, run) := by
  rw [remembering_apply, known]

/-- A goal that is in progress is a cycle, which is counted. -/
theorem remembering_cycle (unknown : run.known.lookup goal = none)
    (entered : goal ∈ run.inProgress) :
    Guard.remembering keep goal node computation run =
      some (.unresolvable .cycle (some node), { run with cycles := run.cycles + 1 }) := by
  rw [remembering_apply, unknown]
  exact if_pos entered

/-- A goal that is new is worked out, and its value is kept if no cycle was met. -/
theorem remembering_begin (unknown : run.known.lookup goal = none)
    (fresh : goal ∉ run.inProgress) {value : Box} {middle : Run}
    (ended : computation (run.begin goal) = some (value, middle)) :
    Guard.remembering keep goal node computation run =
      some (value, middle.finish goal value (middle.cycles = run.cycles ∧ keep)) := by
  rw [remembering_apply, unknown]
  refine (if_neg fresh).trans ?_
  rw [ended]
  rfl

/-- The three ways in which a guarded goal ends: its value is known, it is in progress, or it is
worked out. -/
theorem remembering_cases {value : Box} {after : Run}
    (ended : Guard.remembering keep goal node computation run = some (value, after)) :
    (run.known.lookup goal = some value ∧ after = run) ∨
      (run.known.lookup goal = none ∧ goal ∈ run.inProgress ∧
        value = .unresolvable .cycle (some node) ∧
        after = { run with cycles := run.cycles + 1 }) ∨
      (run.known.lookup goal = none ∧ goal ∉ run.inProgress ∧
        ∃ middle, computation (run.begin goal) = some (value, middle) ∧
          after = middle.finish goal value (middle.cycles = run.cycles ∧ keep)) := by
  rw [remembering_apply] at ended
  cases known : run.known.lookup goal with
  | some stored =>
    rw [known] at ended
    obtain ⟨rfl, rfl⟩ := Prod.mk.inj (Option.some_inj.1 ended)
    exact .inl ⟨rfl, rfl⟩
  | none =>
    rw [known] at ended
    by_cases entered : goal ∈ run.inProgress
    · obtain ⟨rfl, rfl⟩ := Prod.mk.inj (Option.some_inj.1 ((if_pos entered).symm.trans ended))
      exact .inr (.inl ⟨rfl, entered, rfl, rfl⟩)
    · obtain ⟨⟨_, middle⟩, started, ended⟩ :=
        Option.map_eq_some_iff.1 ((if_neg entered).symm.trans ended)
      obtain ⟨rfl, rfl⟩ := Prod.mk.inj ended
      exact .inr (.inr ⟨rfl, entered, middle, started, rfl⟩)

end Guard

end Eval

/-- What an evaluation does to the working state: nothing that is known is lost, what was in
progress, around or in force before is so again, and no matcher is asked. -/
structure Run.Returns (before after : Run) : Prop where
  known : before.known <:+ after.known
  values : ∀ {goal value}, before.known.lookup goal = some value →
    after.known.lookup goal = some value
  inProgress : after.inProgress = before.inProgress
  cycles : before.cycles ≤ after.cycles
  stack : after.stack = before.stack
  overrides : after.overrides = before.overrides
  strangers : after.strangers = before.strangers
  questions : after.questions = before.questions

namespace Run.Returns

variable {before middle after : Run}

/-- Doing nothing returns the state. -/
theorem refl (run : Run) : Returns run run :=
  ⟨List.suffix_rfl, id, rfl, Nat.le_refl _, rfl, rfl, rfl, rfl⟩

/-- The gate is asked. -/
theorem gate (run : Run) (expr : Expr) (stack : List Reference) (allowed : Bool) :
    Returns run { run with events := .gate expr stack allowed :: run.events } :=
  ⟨List.suffix_rfl, id, rfl, Nat.le_refl _, rfl, rfl, rfl, questions_gate ..⟩

/-- A cycle is found. -/
theorem cycle (run : Run) : Returns run { run with cycles := run.cycles + 1 } :=
  ⟨List.suffix_rfl, id, rfl, Nat.le_succ _, rfl, rfl, rfl, rfl⟩

/-- Computations that return the state do so one after the other. -/
theorem trans (first : Returns before middle) (second : Returns middle after) :
    Returns before after where
  known := first.known.trans second.known
  values := fun found => second.values (first.values found)
  inProgress := second.inProgress.trans first.inProgress
  cycles := Nat.le_trans first.cycles second.cycles
  stack := second.stack.trans first.stack
  overrides := second.overrides.trans first.overrides
  strangers := second.strangers.trans first.strangers
  questions := second.questions.trans first.questions

/-- A node that is entered is left again, and the overrides with it. -/
theorem leave {node : Reference} {overrides : Option Overrides}
    (inner : Returns (before.enter node overrides) after) :
    Returns before (after.leave overrides) where
  known := inner.known
  values := inner.values
  inProgress := inner.inProgress
  cycles := inner.cycles
  stack := by simp [Run.leave, inner.stack, Run.enter]
  overrides := by simp [Run.leave, inner.overrides, Run.enter]
  strangers := inner.strangers
  questions := inner.questions

/-- A goal that is begun is finished again. Nothing was known of it, so its value hides no other. -/
theorem finish {goal : Goal} {value : Box} {kept : Bool}
    (unknown : before.known.lookup goal = none) (inner : Returns (before.begin goal) after) :
    Returns before (after.finish goal value kept) where
  known := by
    have grown : before.known <:+ after.known := inner.known
    simp only [Run.finish]
    split
    · exact grown.trans (List.suffix_cons ..)
    · exact grown
  values := by
    intro other result found
    have kept : after.known.lookup other = some result := inner.values found
    have apart : (other == goal) = false := by
      refine beq_eq_false_iff_ne.2 fun same => ?_
      rw [same, unknown] at found
      cases found
    simp only [Run.finish]
    split
    · rw [List.lookup_cons, apart]
      exact kept
    · exact kept
  inProgress := by simp [Run.finish, inner.inProgress, Run.begin]
  cycles := inner.cycles
  stack := inner.stack
  overrides := inner.overrides
  strangers := inner.strangers
  questions := inner.questions

end Run.Returns

end Glean
