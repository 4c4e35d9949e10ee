import Glean.Proofs.Box.Rekeying
import Glean.Proofs.Evaluation.Plain

/-!
# Simulation up to keys

Two evaluations under a policy that does not look at nodes correspond up to keys when their memories
do: the same goals are known, with boxes that are equal when the keys of the first are renamed
(`Memory.Renames`). The nodes around an expression, which expression it is, and the nodes at which
goals are asked for may differ.
-/

namespace Glean

open Syntax Box

/-- The same is known and in progress, up to the keys of what is known. -/
structure Memory.Renames (rename : String → String) (left right : Memory) : Prop where
  known : List.Forall₂ (fun entry twin => entry.1 = twin.1 ∧ entry.2.Renames rename twin.2)
    left.known right.known
  inProgress : left.inProgress = right.inProgress
  cycles : left.cycles = right.cycles

/-- What is known of a goal is known up to keys. -/
theorem Memory.Renames.lookup {rename : String → String} {left right : Memory}
    (renames : left.Renames rename right) (goal : Goal) :
    Option.Rel (Box.Renames rename) (left.known.lookup goal) (right.known.lookup goal) := by
  have known := renames.known
  generalize left.known = entries at known ⊢
  generalize right.known = twins at known ⊢
  induction known with
  | nil => exact .none
  | @cons entry twin rest others same _ ih =>
    obtain ⟨asked, box⟩ := entry
    obtain ⟨askedTwin, value⟩ := twin
    obtain ⟨rfl, boxes⟩ := same
    rw [List.lookup_cons, List.lookup_cons]
    cases goal == asked with
    | true => exact .some boxes
    | false => exact ih

/-- What is known on the left is known on the right, renamed. -/
theorem Memory.Renames.lookup_some {rename : String → String} {left right : Memory}
    (renames : left.Renames rename right) {goal : Goal} {box : Box}
    (found : left.known.lookup goal = some box) :
    ∃ value, right.known.lookup goal = some value ∧ box.Renames rename value := by
  have looked := renames.lookup goal
  rw [found] at looked
  cases foundTwin : right.known.lookup goal with
  | none => rw [foundTwin] at looked; cases looked
  | some value =>
    rw [foundTwin] at looked
    cases looked with
    | some boxes => exact ⟨value, rfl, boxes⟩

/-- What is not known on the left is not known on the right. -/
theorem Memory.Renames.lookup_none {rename : String → String} {left right : Memory}
    (renames : left.Renames rename right) {goal : Goal} (unknown : left.known.lookup goal = none) :
    right.known.lookup goal = none := by
  have looked := renames.lookup goal
  rw [unknown] at looked
  cases foundTwin : right.known.lookup goal with
  | none => rfl
  | some => rw [foundTwin] at looked; cases looked

/-- Under a policy that does not look at nodes no overrides are in force in either state. -/
theorem Run.Corresponds.free_right {policy : Policy} {memories : Memory → Memory → Prop}
    {left right : Run} (corresponds : left.Corresponds policy memories right)
    (calm : policy.isStackSensitive = false) : right.overrides = [] :=
  corresponds.overrides.symm.trans (corresponds.free calm)

namespace Eval

variable {policy : Policy} {rename : String → String} {α β : Type} {related : α → β → Prop}

/-- Where the first computation ends, so does the second, with a related value, and what they
remember corresponds up to keys. -/
abbrev Mirrors (policy : Policy) (rename : String → String) (related : α → β → Prop)
    (left : Eval α) (right : Eval β) : Prop :=
  Eval.Simulates policy Memory.never (Memory.Renames rename) related left right

namespace Mirrors

/-- Computations that mirror each other do so with a weaker relation. -/
theorem imp {others : α → β → Prop} {left : Eval α} {right : Eval β}
    (mirrors : Mirrors policy rename related left right) (weaker : ∀ a b, related a b → others a b) :
    Mirrors policy rename others left right :=
  .of_ends fun corresponds ended => by
    obtain ⟨b, end', twin, after, related⟩ := mirrors.elim corresponds ended
    exact ⟨b, end', twin, after, weaker _ _ related⟩

/-- What is not known mirrors itself, at whatever nodes. -/
theorem unknown (reason : Reason) (node other : Reference) :
    Mirrors policy rename (Box.Renames rename) (pure (.unknown reason node))
      (pure (.unknown reason other)) :=
  .pure (.unresolvable reason _ _)

section Calm

variable (calm : policy.isStackSensitive = false)

include calm

/-- What finds nothing unless names are overridden finds nothing under a policy that does not look
at nodes. -/
theorem nothing {left : Eval (Option α)} {right : Eval (Option β)}
    (none_left : ∀ run : Run, run.overrides = [] → left run = some (none, run))
    (none_right : ∀ run : Run, run.overrides = [] → right run = some (none, run)) :
    Mirrors policy rename (fun a b => a = none ∧ b = none) left right :=
  .of_ends fun {run twin _ _} corresponds ended => by
    rw [none_left run (corresponds.free calm)] at ended
    obtain ⟨rfl, rfl⟩ := Prod.mk.inj (Option.some_inj.1 ended)
    exact ⟨none, twin, none_right twin (corresponds.free_right calm), corresponds, rfl, rfl⟩

/-- What computations do while names are overridden makes no difference. -/
theorem congr {left leftNext : Eval α} {right rightNext : Eval β}
    (same : ∀ run : Run, run.overrides = [] → left run = leftNext run)
    (sameTwin : ∀ run : Run, run.overrides = [] → right run = rightNext run)
    (mirrors : Mirrors policy rename related leftNext rightNext) :
    Mirrors policy rename related left right :=
  .of_ends fun {run twin _ _} corresponds ended => by
    rw [same run (corresponds.free calm)] at ended
    rw [sameTwin twin (corresponds.free_right calm)]
    exact mirrors.elim corresponds ended

/-- Under a calm policy nothing is overridden, whatever the names are. -/
theorem override? (name other : String) :
    Mirrors policy rename (fun a b => a = none ∧ b = none) (Eval.override? name)
      (Eval.override? other) :=
  nothing calm (fun _ free => override?_of_free name free) fun _ free => override?_of_free other free

/-- Under a calm policy no helper is in force, whatever is called. -/
theorem helper? (callee twin : Option Expr) :
    Mirrors policy rename (fun a b => a = none ∧ b = none) (Evaluation.helper? callee)
      (Evaluation.helper? twin) :=
  nothing calm (fun _ => Evaluation.helper?_of_free callee) fun _ => Evaluation.helper?_of_free twin

/-- Which expression is entered, and where it stands, makes no difference. -/
theorem inside_left {related : Box → β → Prop} {left : Eval Box} {right : Eval β}
    (inner : Mirrors policy rename related left right) (expr : Expr) (node : Reference) :
    Mirrors policy rename related (Eval.inside policy expr node left) right :=
  .of_ends fun {run twin _ _} corresponds ended => by
    rw [inside_apply, Run.Corresponds.overridesFor_eq_none calm] at ended
    obtain ⟨⟨a, middle⟩, started, ended⟩ := Option.map_eq_some_iff.1 ended
    obtain ⟨rfl, rfl⟩ := Prod.mk.inj ended
    have entered : (run.enter node none).Corresponds policy (Memory.Renames rename) twin :=
      .of_calm calm (corresponds.free calm) (corresponds.free_right calm) corresponds.memories
    obtain ⟨b, end', twinEnds, after, related⟩ := inner.elim entered started
    have left : (middle.leave none).Corresponds policy (Memory.Renames rename) end' :=
      .of_calm calm (after.free calm) (after.free_right calm) after.memories
    exact ⟨b, end', twinEnds, left, related⟩

/-- What mirrors a computation mirrors it inside a node as well. -/
theorem inside_right {related : α → Box → Prop} {left : Eval α} {right : Eval Box}
    (inner : Mirrors policy rename related left right) (expr : Expr) (node : Reference) :
    Mirrors policy rename related left (Eval.inside policy expr node right) :=
  .of_ends fun {run twin _ _} corresponds ended => by
    have entered : run.Corresponds policy (Memory.Renames rename) (twin.enter node none) :=
      .of_calm calm (corresponds.free calm) (corresponds.free_right calm) corresponds.memories
    obtain ⟨b, end', twinEnds, after, related⟩ := inner.elim entered ended
    refine ⟨b, end'.leave none, ?_, ?_, related⟩
    · rw [inside_apply, Run.Corresponds.overridesFor_eq_none calm, twinEnds]
      rfl
    · exact .of_calm calm (after.free calm) (after.free_right calm) after.memories

end Calm

/-- A goal that is worked out alike is guarded alike. -/
theorem remembering {left right : Eval Box}
    (inner : Mirrors policy rename (Box.Renames rename) left right) (keep : Bool) (goal : Goal)
    (node other : Reference) :
    Mirrors policy rename (Box.Renames rename) (Guard.remembering keep goal node left)
      (Guard.remembering keep goal other right) :=
  .of_ends fun {run twin _ _} corresponds ended => by
    have memories : run.memory.Renames rename twin.memory := corresponds.memories
    have inProgress : run.inProgress = twin.inProgress := memories.inProgress
    have cycles : run.cycles = twin.cycles := memories.cycles
    rcases remembering_cases ended with ⟨found, rfl⟩ | ⟨unknown, entered, rfl, rfl⟩ |
      ⟨unknown, fresh, middle, started, rfl⟩
    · obtain ⟨value, foundTwin, boxes⟩ := memories.lookup_some found
      exact ⟨value, twin, remembering_known foundTwin, corresponds, boxes⟩
    · have unknownTwin : twin.known.lookup goal = none := memories.lookup_none unknown
      refine ⟨_, _, remembering_cycle unknownTwin (inProgress ▸ entered), ?_, .unresolvable ..⟩
      exact ⟨⟨memories.known, inProgress, congrArg (· + 1) cycles⟩, corresponds.stack,
        corresponds.overrides, corresponds.free⟩
    · have unknownTwin : twin.known.lookup goal = none := memories.lookup_none unknown
      have begun : (run.begin goal).Corresponds policy (Memory.Renames rename) (twin.begin goal) :=
        ⟨⟨memories.known, congrArg (goal :: ·) inProgress, cycles⟩, corresponds.stack,
          corresponds.overrides, corresponds.free⟩
      obtain ⟨b, last, twinEnds, after, boxes⟩ := inner.elim begun started
      have afterMemories : middle.memory.Renames rename last.memory := after.memories
      have afterCycles : middle.cycles = last.cycles := afterMemories.cycles
      refine ⟨b, _, remembering_begin unknownTwin (inProgress ▸ fresh) twinEnds, ?_, boxes⟩
      refine ⟨⟨?_, congrArg (List.erase · goal) afterMemories.inProgress, afterCycles⟩, after.stack,
        after.overrides, after.free⟩
      simp only [Run.finish, Run.memory, ← afterCycles, ← cycles]
      split
      · exact .cons ⟨rfl, boxes⟩ afterMemories.known
      · exact afterMemories.known

end Mirrors

end Eval

end Glean
