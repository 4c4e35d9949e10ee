import Glean.Proofs.Evaluation.Comparison

/-!
# Simulating one evaluation by another

A simulation relates an evaluation that ends to another one: the other ends as well, with an alike
box, in a state whose memory corresponds. The memory is what guards use (`Run.memory`); the nodes
around an expression must be the same where the policy can see them, and the overrides in force must
be the same always.

A simulation may also be lost: once the memory of the first evaluation is lost, nothing is said about
the second one any more. With `Comparison.simulation` the step lemma of comparisons applies, and two
guards are compared by what they do to corresponding memories.
-/

namespace Glean

open Syntax Box

/-- What guards read and write of a working state. -/
structure Memory where
  known : List (Goal × Box)
  inProgress : List Goal
  cycles : Nat

/-- What guards read and write of the state. -/
def Run.memory (run : Run) : Memory :=
  { known := run.known, inProgress := run.inProgress, cycles := run.cycles }

/-- A policy that does not look at nodes has no gate. -/
theorem Policy.gate_eq_none {policy : Policy} (calm : policy.isStackSensitive = false) :
    policy.gate = none := by
  have free : policy.gate.isSome = false := (Bool.or_eq_false_iff.1 calm).1
  simpa using free

/-- Two states correspond under a policy: their memories do, and evaluation cannot tell them apart
otherwise. A policy that does not look at nodes puts no overrides in force. -/
structure Run.Corresponds (policy : Policy) (memories : Memory → Memory → Prop) (left right : Run) :
    Prop where
  memories : memories left.memory right.memory
  stack : policy.isStackSensitive = true → left.stack = right.stack
  overrides : left.overrides = right.overrides
  free : policy.isStackSensitive = false → left.overrides = []

namespace Run.Corresponds

variable {policy : Policy} {memories : Memory → Memory → Prop} {left right : Run}

/-- What was asked makes no difference. -/
theorem record (corresponds : left.Corresponds policy memories right) (events others : List Event) :
    Corresponds policy memories { left with events } { right with events := others } :=
  ⟨corresponds.memories, corresponds.stack, corresponds.overrides, corresponds.free⟩

/-- A policy that sees nothing of the nodes leaves nothing to compare but the memories. -/
theorem of_calm (calm : policy.isStackSensitive = false) (free : left.overrides = [])
    (freeNext : right.overrides = []) (related : memories left.memory right.memory) :
    left.Corresponds policy memories right where
  memories := related
  stack sensitive := absurd (calm.symm.trans sensitive) Bool.false_ne_true
  overrides := free.trans freeNext.symm
  free _ := free

/-- A policy that does not look at nodes puts no overrides in force. -/
theorem overridesFor_eq_none (calm : policy.isStackSensitive = false) (expr : Expr)
    (stack : List Reference) : policy.overridesFor expr stack = none := by
  have missing : policy.overrides = none := by
    simpa [Policy.isStackSensitive] using (Bool.or_eq_false_iff.1 calm).2
  rw [Policy.overridesFor, missing, Option.bind_none]

/-- An expression brings the same overrides in corresponding states. -/
theorem overridesFor (corresponds : left.Corresponds policy memories right) (expr : Expr) :
    policy.overridesFor expr left.stack = policy.overridesFor expr right.stack := by
  cases sensitive : policy.isStackSensitive with
  | true => rw [corresponds.stack sensitive]
  | false => rw [overridesFor_eq_none sensitive, overridesFor_eq_none sensitive]

/-- Corresponding states still correspond inside a node. -/
theorem enter (corresponds : left.Corresponds policy memories right) (expr : Expr)
    (node : Reference) :
    (left.enter node (policy.overridesFor expr left.stack)).Corresponds policy memories
      (right.enter node (policy.overridesFor expr right.stack)) where
  memories := corresponds.memories
  stack sensitive := congrArg (node :: ·) (corresponds.stack sensitive)
  overrides := by
    rw [corresponds.overridesFor expr]
    exact congrArg (_ ++ ·) corresponds.overrides
  free calm := by
    rw [overridesFor_eq_none calm]
    exact corresponds.free calm

/-- Corresponding states still correspond after a node is left. -/
theorem leave (corresponds : left.Corresponds policy memories right)
    (overrides : Option Overrides) :
    (left.leave overrides).Corresponds policy memories (right.leave overrides) where
  memories := corresponds.memories
  stack sensitive := congrArg List.tail (corresponds.stack sensitive)
  overrides := congrArg (List.drop _) corresponds.overrides
  free calm := by
    rw [Run.leave, corresponds.free calm, List.drop_nil]

end Run.Corresponds

/-- Whenever the first computation ends, so does the second from a corresponding state, and they end
in corresponding states with related values, unless the memory gets lost on the way. -/
structure Eval.Simulates (policy : Policy) (lost : Memory → Prop)
    (memories : Memory → Memory → Prop) {α β : Type} (related : α → β → Prop) (left : Eval α)
    (right : Eval β) : Prop where
  stays : ∀ {run after : Run} {a : α}, lost run.memory → left run = some (a, after) →
    lost after.memory ∧ ∃ b, related a b
  ends : ∀ {run twin after : Run} {a : α}, run.Corresponds policy memories twin →
    left run = some (a, after) →
      (∃ b end', right twin = some (b, end') ∧ after.Corresponds policy memories end' ∧
        related a b) ∨ (lost after.memory ∧ ∃ b, related a b)

namespace Eval.Simulates

variable {policy : Policy} {lost : Memory → Prop} {memories : Memory → Memory → Prop}
  {α β γ δ : Type} {related : α → β → Prop}

/-- What never ends is simulated by everything. -/
theorem of_failure (right : Eval β) :
    Simulates policy lost memories related (failure : Eval α) right where
  stays _ ended := by cases ended
  ends _ ended := by cases ended

/-- Related values simulate each other. -/
theorem pure {a : α} {b : β} (alike : related a b) :
    Simulates policy lost memories related (Pure.pure a) (Pure.pure b) where
  stays gone ended := by
    obtain ⟨rfl, rfl⟩ := Prod.mk.inj (Option.some_inj.1 ended)
    exact ⟨gone, b, alike⟩
  ends corresponds ended := by
    obtain ⟨rfl, rfl⟩ := Prod.mk.inj (Option.some_inj.1 ended)
    exact .inl ⟨b, _, rfl, corresponds, alike⟩

/-- Simulations follow one another. -/
theorem bind {after : γ → δ → Prop} {left : Eval α} {right : Eval β} {leftNext : α → Eval γ}
    {rightNext : β → Eval δ} (first : Simulates policy lost memories related left right)
    (rest : ∀ a b, related a b → Simulates policy lost memories after (leftNext a) (rightNext b)) :
    Simulates policy lost memories after (left >>= leftNext) (right >>= rightNext) where
  stays gone ended := by
    obtain ⟨⟨a, middle⟩, started, ended⟩ := Option.bind_eq_some_iff.1 ended
    obtain ⟨gone, b, alike⟩ := first.stays gone started
    exact (rest a b alike).stays gone ended
  ends corresponds ended := by
    obtain ⟨⟨a, middle⟩, started, ended⟩ := Option.bind_eq_some_iff.1 ended
    rcases first.ends corresponds started with ⟨b, _, twin, corresponds, alike⟩ | ⟨gone, b, alike⟩
    · rw [Eval.bind_apply, twin]
      exact (rest a b alike).ends corresponds ended
    · exact .inr ((rest a b alike).stays gone ended)

/-- A computation that only reads what corresponding states have in common. -/
theorem read {left right : Eval α} (value : Run → α)
    (reads : ∀ run, left run = some (value run, run))
    (readsTwin : ∀ run, right run = some (value run, run))
    (common : ∀ {run twin : Run}, run.Corresponds policy memories twin → value run = value twin) :
    Simulates policy lost memories Eq left right where
  stays gone ended := by
    rw [reads] at ended
    obtain ⟨rfl, rfl⟩ := Prod.mk.inj (Option.some_inj.1 ended)
    exact ⟨gone, _, rfl⟩
  ends corresponds ended := by
    rw [reads] at ended
    obtain ⟨rfl, rfl⟩ := Prod.mk.inj (Option.some_inj.1 ended)
    exact .inl ⟨_, _, readsTwin _, corresponds, common corresponds⟩

/-- The question whether an expression is allowed has one answer in corresponding states. -/
theorem allowed (expr : Expr) :
    Simulates policy lost memories Eq (Eval.allowed policy expr) (Eval.allowed policy expr) where
  stays gone ended := by
    rw [Eval.allowed_apply] at ended
    split at ended <;> obtain ⟨rfl, rfl⟩ := Prod.mk.inj (Option.some_inj.1 ended) <;>
      exact ⟨gone, _, rfl⟩
  ends {run twin _ _} corresponds ended := by
    rw [Eval.allowed_apply] at ended ⊢
    cases gated : policy.gate with
    | none =>
      rw [gated] at ended
      obtain ⟨rfl, rfl⟩ := Prod.mk.inj (Option.some_inj.1 ended)
      exact .inl ⟨_, _, rfl, corresponds, rfl⟩
    | some gate =>
      rw [gated] at ended
      obtain ⟨rfl, rfl⟩ := Prod.mk.inj (Option.some_inj.1 ended)
      have stack := corresponds.stack (by simp [Policy.isStackSensitive, gated])
      exact .inl ⟨_, _, rfl, corresponds.record .., by rw [stack]⟩

/-- Computations that simulate each other still do so inside a node. -/
theorem inside {left right : Eval Box} {related : Box → Box → Prop}
    (inner : Simulates policy lost memories related left right) (expr : Expr) (node : Reference) :
    Simulates policy lost memories related (Eval.inside policy expr node left)
      (Eval.inside policy expr node right) where
  stays {run _ _} gone ended := by
    rw [Eval.inside_apply] at ended
    obtain ⟨⟨a, middle⟩, started, ended⟩ := Option.map_eq_some_iff.1 ended
    obtain ⟨rfl, rfl⟩ := Prod.mk.inj ended
    have entered : lost (run.enter node (policy.overridesFor expr run.stack)).memory := gone
    have left := inner.stays entered started
    exact left
  ends {run twin _ _} corresponds ended := by
    rw [Eval.inside_apply] at ended ⊢
    obtain ⟨⟨a, middle⟩, started, ended⟩ := Option.map_eq_some_iff.1 ended
    obtain ⟨rfl, rfl⟩ := Prod.mk.inj ended
    rcases inner.ends (corresponds.enter expr node) started with ⟨b, end', twin, after, alike⟩ | gone
    · rw [twin]
      refine .inl ⟨b, _, rfl, ?_, alike⟩
      rw [corresponds.overridesFor expr]
      exact after.leave _
    · exact .inr gone

end Eval.Simulates

/-- Evaluations that simulate each other. -/
def Comparison.simulation (policy : Policy) (view : View) (lost : Memory → Prop)
    (memories : Memory → Memory → Prop) : Comparison policy where
  view := view
  Holds := Eval.Simulates policy lost memories
  value := Eval.Simulates.pure
  bind := Eval.Simulates.bind
  override? := fun name => .read _ (Eval.override?_apply · name) (Eval.override?_apply · name)
    fun corresponds => by rw [corresponds.overrides]
  helper? := fun name => .read _ (Eval.helper?_apply · name) (Eval.helper?_apply · name)
    fun corresponds => by rw [corresponds.overrides]
  allowed := Eval.Simulates.allowed
  inside := fun expr node _ _ inner => inner.inside expr node

end Glean
