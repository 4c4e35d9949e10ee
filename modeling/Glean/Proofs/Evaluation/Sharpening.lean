import Glean.Proofs.Evaluation.Steady

/-!
# Evaluating with more knowledge

A `Sharpening` is a policy and a second one that knows more: it gives boxes to names that no file
binds, or it looks into conditions that the first one leaves out. A coarse computation under the first
policy and a fine one under the second are compared where both end (`Sharpening.Approximates`), from
states that differ only in the nodes around the expression and in the overrides in force
(`Sharpening.Agree`).

The two computations need not go through the same steps: where the coarse one does not know a
condition it follows both branches, and where it knows nothing at all it goes no further. Evaluation
without a memory is steady, so such steps change nothing that matters to what follows.
-/

namespace Glean

open Syntax Box

/-- A policy without gate and overrides, and one that knows more about the same project. -/
structure Sharpening where
  /-- The files. -/
  project : Project
  /-- The boxes of the names that only the second policy knows. -/
  environment : Entries String Box
  /-- The policy that knows less. -/
  coarse : Policy
  /-- The policy that knows more. -/
  fine : Policy
  ungated : coarse.gate = none
  ungatedFine : fine.gate = none
  plain : coarse.overrides = none
  /-- The outermost expression brings the environment and no helpers. -/
  environs : ∀ expr name, ((fine.overridesFor expr []).bind fun overrides =>
    Entries.get? overrides.environment name) = Entries.get? environment name
  helpless : ∀ expr name, ((fine.overridesFor expr []).bind fun overrides =>
    Entries.get? overrides.helpers name) = none
  /-- No other expression brings overrides. -/
  outermost : ∀ expr stack, stack ≠ [] → fine.overridesFor expr stack = none
  skipEvaluate : fine.flags.skipEvaluate = coarse.flags.skipEvaluate
  skipFiles : fine.flags.skipFiles = coarse.flags.skipFiles
  /-- Conditions that the second policy leaves out, the first one leaves out as well. -/
  skipConditions : fine.flags.skipConditions = true → coarse.flags.skipConditions = true
  /-- The names of the environment have no other meaning. -/
  unbound : ∀ name box, Entries.get? environment name = some box →
    builtin? name = none ∧ ∀ path (id : Id), id.name = name → (project.scope path).binding? id = none

namespace Sharpening

variable (s : Sharpening)

/-- What the coarse evaluation depends on. -/
def blunt : Setting := { project := s.project, policy := s.coarse }

/-- What the fine evaluation depends on. -/
def sharp : Setting := { project := s.project, policy := s.fine }

/-- The coarse evaluation is about the project. -/
@[simp]
theorem blunt_project : s.blunt.project = s.project := rfl

/-- The fine evaluation is about the project. -/
@[simp]
theorem sharp_project : s.sharp.project = s.project := rfl

/-- Covering of boxes; a conditional covers what its branches cover when conditions are looked into. -/
abbrev Covers : Box → Box → Prop := Box.Covers !s.coarse.flags.skipConditions

/-- Both evaluations find the same modules. -/
theorem target?_eq (scope : Scope) (source : String) :
    s.sharp.target? scope source = s.blunt.target? scope source := by
  simp only [Setting.target?, sharp, blunt, s.skipFiles]
  rfl

/-- Conditions that the coarse evaluation looks into, the fine one looks into as well. -/
theorem looks (looked : s.coarse.flags.skipConditions = false) :
    s.fine.flags.skipConditions = false :=
  Bool.eq_false_iff.2 fun skipped => nomatch (s.skipConditions skipped).symm.trans looked

/-- Tasks with one goal under the one policy have the same goal under the other. -/
theorem goal?_eq (task : Task) : task.goal? s.sharp = task.goal? s.blunt := by
  cases task <;> rfl

/-- Two states inside the outermost expression: the same goals are in progress, nothing is known, and
the overrides in force come to the environment on the fine side and to nothing on the coarse one. -/
structure Agree (run twin : Run) : Prop where
  known : run.known = []
  knownFine : twin.known = []
  inProgress : twin.inProgress = run.inProgress
  overrides : run.overrides = []
  environment : ∀ name, (twin.overrides.findSome? fun overrides =>
    Entries.get? overrides.environment name) = Entries.get? s.environment name
  helpers : ∀ name, (twin.overrides.findSome? fun overrides =>
    Entries.get? overrides.helpers name) = none
  inside : twin.stack ≠ []

/-- Wherever both computations end, they end in states that agree, and with related values. -/
structure Approximates {α β : Type} (related : α → β → Prop) (coarse : Eval α) (fine : Eval β) :
    Prop where
  ends : ∀ {run twin after final : Run} {a : α} {b : β}, s.Agree run twin →
    coarse run = some (a, after) → fine twin = some (b, final) →
      s.Agree after final ∧ related a b

variable {s} {run twin after final : Run}

namespace Agree

/-- Inside the outermost expression the states agree. -/
theorem enter (s : Sharpening) (expr : Expr) (node : Reference) :
    s.Agree (Run.enter {} node (s.coarse.overridesFor expr []))
      (Run.enter {} node (s.fine.overridesFor expr [])) where
  known := rfl
  knownFine := rfl
  inProgress := rfl
  overrides := by
    rw [Policy.overridesFor, s.plain]
    rfl
  environment name := by
    rw [← s.environs expr name]
    cases s.fine.overridesFor expr [] <;> simp [Run.enter]
  helpers name := by
    rw [← s.helpless expr name]
    cases s.fine.overridesFor expr [] <;> simp [Run.enter]
  inside := List.cons_ne_nil _ _

/-- What a steady computation leaves on the coarse side agrees as well. -/
theorem left (agree : s.Agree run twin) (returns : run.Returns after)
    (known : after.known = run.known) : s.Agree after twin where
  known := known.trans agree.known
  knownFine := agree.knownFine
  inProgress := agree.inProgress.trans returns.inProgress.symm
  overrides := returns.overrides.trans agree.overrides
  environment := agree.environment
  helpers := agree.helpers
  inside := agree.inside

/-- So does a fine state that differs in nothing that matters. -/
theorem right (agree : s.Agree run twin) (known : final.known = twin.known)
    (inProgress : final.inProgress = twin.inProgress) (overrides : final.overrides = twin.overrides)
    (stack : final.stack = twin.stack) : s.Agree run final where
  known := agree.known
  knownFine := known.trans agree.knownFine
  inProgress := inProgress.trans agree.inProgress
  overrides := agree.overrides
  environment name := overrides ▸ agree.environment name
  helpers name := overrides ▸ agree.helpers name
  inside := stack ▸ agree.inside

/-- States still agree when both begin with a goal. -/
theorem begin (agree : s.Agree run twin) (goal : Goal) : s.Agree (run.begin goal) (twin.begin goal)
    where
  known := agree.known
  knownFine := agree.knownFine
  inProgress := congrArg (goal :: ·) agree.inProgress
  overrides := agree.overrides
  environment := agree.environment
  helpers := agree.helpers
  inside := agree.inside

end Agree

namespace Approximates

variable {α β γ δ : Type} {related : α → β → Prop} {further : γ → δ → Prop} {coarse : Eval α}
  {fine : Eval β}

/-- Related values approximate each other. -/
theorem pure {a : α} {b : β} (holds : related a b) :
    s.Approximates related (Pure.pure a) (Pure.pure b) where
  ends agree ended endedFine := by
    obtain ⟨rfl, rfl⟩ := Prod.mk.inj (Option.some_inj.1 ended)
    obtain ⟨rfl, rfl⟩ := Prod.mk.inj (Option.some_inj.1 endedFine)
    exact ⟨agree, holds⟩

/-- Approximations follow one another. -/
theorem bind {rest : α → Eval γ} {restFine : β → Eval δ}
    (first : s.Approximates related coarse fine)
    (others : ∀ a b, related a b → s.Approximates further (rest a) (restFine b)) :
    s.Approximates further (coarse >>= rest) (fine >>= restFine) where
  ends agree ended endedFine := by
    obtain ⟨⟨a, middle⟩, started, ended⟩ := Option.bind_eq_some_iff.1 ended
    obtain ⟨⟨b, middleFine⟩, startedFine, endedFine⟩ := Option.bind_eq_some_iff.1 endedFine
    obtain ⟨agree, holds⟩ := first.ends agree started startedFine
    exact (others a b holds).ends agree ended endedFine

/-- What is approximated with a relation is so with a weaker one. -/
theorem mono {other : α → β → Prop} (first : s.Approximates related coarse fine)
    (weaker : ∀ a b, related a b → other a b) : s.Approximates other coarse fine where
  ends agree ended endedFine := (first.ends agree ended endedFine).imp id (weaker _ _)

/-- A value that is related to everything approximates every steady computation. -/
theorem settled (steady : fine.Steady) {a : α} (all : ∀ b, related a b) :
    s.Approximates related (Pure.pure a) fine where
  ends agree ended endedFine := by
    obtain ⟨rfl, rfl⟩ := Prod.mk.inj (Option.some_inj.1 ended)
    have returns := steady.returns endedFine
    exact ⟨agree.right (steady.known endedFine) returns.inProgress returns.overrides returns.stack,
      all _⟩

/-- After a part, the coarse computation goes on in step with the fine one, or it ends at once with a
value that is related to everything. -/
theorem bind_or {rest : α → Eval γ} {restFine : β → Eval δ}
    (first : s.Approximates related coarse fine) (steady : fine.Steady)
    (whole : (fine >>= restFine).Steady)
    (others : ∀ a b, related a b → (∃ c, rest a = Pure.pure c ∧ ∀ d, further c d) ∨
      s.Approximates further (rest a) (restFine b)) :
    s.Approximates further (coarse >>= rest) (fine >>= restFine) where
  ends agree ended endedFine := by
    have returns := whole.returns endedFine
    have known := whole.known endedFine
    obtain ⟨⟨a, middle⟩, started, ended⟩ := Option.bind_eq_some_iff.1 ended
    obtain ⟨⟨b, middleFine⟩, startedFine, endedFine⟩ := Option.bind_eq_some_iff.1 endedFine
    obtain ⟨agree, holds⟩ := first.ends agree started startedFine
    rcases others a b holds with ⟨c, stops, all⟩ | goes
    · have ended : rest a middle = _ := ended
      rw [stops] at ended
      obtain ⟨rfl, rfl⟩ := Prod.mk.inj (Option.some_inj.1 ended)
      have before := steady.returns startedFine
      refine ⟨agree.right (known.trans (steady.known startedFine).symm) ?_ ?_ ?_, all _⟩
      · exact returns.inProgress.trans before.inProgress.symm
      · exact returns.overrides.trans before.overrides.symm
      · exact returns.stack.trans before.stack.symm
    · exact goes.ends agree ended endedFine

/-- The coarse computation may go on where the fine one is done. -/
theorem bind_done {rest : α → Eval γ} {further : γ → β → Prop}
    (first : s.Approximates related coarse fine)
    (others : ∀ a b, related a b → s.Approximates further (rest a) (Pure.pure b)) :
    s.Approximates further (coarse >>= rest) fine := by
  rw [← bind_pure fine]
  exact first.bind others

/-- The coarse computation may first evaluate something that the fine one leaves alone. -/
theorem before {rest : α → Eval γ} {other : Eval δ} (steady : coarse.Steady)
    (others : ∀ a, s.Approximates further (rest a) other) :
    s.Approximates further (coarse >>= rest) other where
  ends agree ended endedFine := by
    obtain ⟨⟨a, middle⟩, started, ended⟩ := Option.bind_eq_some_iff.1 ended
    exact (others a).ends (agree.left (steady.returns started) (steady.known started)) ended endedFine

/-- The coarse computation may fall back on a value that is related to everything. -/
theorem orElse {a : α} (first : s.Approximates related coarse fine) (steady : fine.Steady)
    (all : ∀ b, related a b) : s.Approximates related (coarse <|> Pure.pure a) fine where
  ends agree ended endedFine := by
    rcases Eval.orElse_eq_some ended with ended | ended
    · exact first.ends agree ended endedFine
    · exact (settled steady all).ends agree ended endedFine

/-- On the coarse side no name is overridden, and on the fine side those of the environment are. -/
theorem override? (name : String) :
    s.Approximates (fun known value => known = none ∧ value = Entries.get? s.environment name)
      (Eval.override? name) (Eval.override? name) where
  ends agree ended endedFine := by
    rw [Eval.override?_apply, agree.overrides] at ended
    rw [Eval.override?_apply, agree.environment] at endedFine
    obtain ⟨rfl, rfl⟩ := Prod.mk.inj (Option.some_inj.1 ended)
    obtain ⟨rfl, rfl⟩ := Prod.mk.inj (Option.some_inj.1 endedFine)
    exact ⟨agree, rfl, rfl⟩

/-- Neither side has helpers. -/
theorem helper? (name : String) :
    s.Approximates (fun known value => known = none ∧ value = none) (Eval.helper? name)
      (Eval.helper? name) where
  ends agree ended endedFine := by
    rw [Eval.helper?_apply, agree.overrides] at ended
    rw [Eval.helper?_apply, agree.helpers] at endedFine
    obtain ⟨rfl, rfl⟩ := Prod.mk.inj (Option.some_inj.1 ended)
    obtain ⟨rfl, rfl⟩ := Prod.mk.inj (Option.some_inj.1 endedFine)
    exact ⟨agree, rfl, rfl⟩

/-- The same goals are found to depend on themselves, which leaves nothing known. -/
theorem remembering {related : Box → Box → Prop} {coarse fine : Eval Box}
    (inner : s.Approximates related coarse fine) (goal : Goal) (node : Reference)
    (cycle : ∀ box, related (.unresolvable .cycle (some node)) box) :
    s.Approximates related (Guard.remembering false goal node coarse)
      (Guard.remembering false goal node fine) where
  ends {run twin _ _ _ _} agree ended endedFine := by
    rcases Eval.remembering_cases ended with ⟨known, _⟩ | ⟨_, entered, rfl, rfl⟩ |
      ⟨_, fresh, middle, started, rfl⟩
    · rw [agree.known] at known
      cases known
    · rw [Eval.remembering_cycle (by rw [agree.knownFine]; rfl) (agree.inProgress ▸ entered)]
        at endedFine
      obtain ⟨rfl, rfl⟩ := Prod.mk.inj (Option.some_inj.1 endedFine)
      exact ⟨⟨agree.known, agree.knownFine, agree.inProgress, agree.overrides, agree.environment,
        agree.helpers, agree.inside⟩, cycle _⟩
    · rcases Eval.remembering_cases endedFine with ⟨known, _⟩ | ⟨_, entered, _⟩ |
        ⟨_, _, middleFine, startedFine, rfl⟩
      · rw [agree.knownFine] at known
        cases known
      · exact absurd (agree.inProgress ▸ entered) fresh
      · obtain ⟨after, holds⟩ := inner.ends (agree.begin goal) started startedFine
        refine ⟨⟨?_, ?_, ?_, after.overrides, after.environment, after.helpers, after.inside⟩, holds⟩
        · simpa [Run.finish] using after.known
        · simpa [Run.finish] using after.knownFine
        · exact congrArg (List.erase · goal) after.inProgress

/-- Expressions inside the outermost one bring no overrides. -/
theorem inside {related : Box → Box → Prop} {coarse fine : Eval Box}
    (inner : s.Approximates related coarse fine) (steady : fine.Steady) (expr : Expr)
    (node : Reference) :
    s.Approximates related (Eval.inside s.coarse expr node coarse)
      (Eval.inside s.fine expr node fine) where
  ends {run twin _ _ _ _} agree ended endedFine := by
    rw [Eval.inside_apply, show s.coarse.overridesFor expr run.stack = none by
      rw [Policy.overridesFor, s.plain, Option.bind_none]] at ended
    rw [Eval.inside_apply, s.outermost expr _ agree.inside] at endedFine
    obtain ⟨⟨a, middle⟩, started, ended⟩ := Option.map_eq_some_iff.1 ended
    obtain ⟨rfl, rfl⟩ := Prod.mk.inj ended
    obtain ⟨⟨b, middleFine⟩, startedFine, endedFine⟩ := Option.map_eq_some_iff.1 endedFine
    obtain ⟨rfl, rfl⟩ := Prod.mk.inj endedFine
    have entered : s.Agree (run.enter node none) (twin.enter node none) :=
      ⟨agree.known, agree.knownFine, agree.inProgress, agree.overrides, agree.environment,
        agree.helpers, List.cons_ne_nil _ _⟩
    obtain ⟨after, holds⟩ := inner.ends entered started startedFine
    refine ⟨⟨after.known, after.knownFine, after.inProgress, after.overrides, after.environment,
      after.helpers, ?_⟩, holds⟩
    have stack : middleFine.stack = node :: twin.stack := (steady.returns startedFine).stack
    rw [Run.leave, stack]
    exact agree.inside

end Approximates

end Sharpening

end Glean
