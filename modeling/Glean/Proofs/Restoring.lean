import Glean.Proofs.Evaluation.Operands
import Glean.Proofs.Evaluation.Search

/-!
# What an evaluation leaves of the working state

An evaluation gives the working state back as it found it, whatever that was: the nodes around it,
the overrides in force and the goals in progress are those of before, and no value or scope that was
known is lost or changed. It may come to know more values, but not under a gate or overrides
(`evaluate_restores`).
-/

namespace Glean

open Syntax Box

/-- What is left of a working state under a setting. -/
structure Run.Restored (setting : Setting) (before after : Run) : Prop where
  stack : after.stack = before.stack
  overrides : after.overrides = before.overrides
  inProgress : after.inProgress = before.inProgress
  cycles : before.cycles ≤ after.cycles
  /-- What is known of a goal stays known, and the same. -/
  values : ∀ {goal value}, before.known.lookup goal = some value →
    after.known.lookup goal = some value
  /-- A scope that is there, so that looking for it changes nothing, stays there, and the same. -/
  scopes : ∀ {path scope}, (setting.scopeAt path).run before = (scope, before) →
    (setting.scopeAt path).run after = (scope, after)
  /-- Where the nodes around an expression may matter, no value is added. -/
  unkept : setting.policy.gate.isSome ∨ setting.policy.overrides.isSome → after.known = before.known

namespace Setting

variable {setting : Setting} {run here : Run} {path other : Path} {scope : Scope}

/-- Finding the scope of one path leaves the scopes of all others as they are. -/
theorem scopeAt_other (there : (setting.scopeAt other).run run = (scope, run))
    (same : here.strangers = ((setting.scopeAt path).run run).2.strangers) :
    (setting.scopeAt other).run here = (scope, here) := by
  rw [scopeAt_eq] at there same ⊢
  cases found : setting.project.file? other with
  | some file =>
    rw [found] at there
    exact congrArg (·, here) (Prod.mk.inj there).1
  | none =>
    rw [found] at there
    cases known : run.strangers.find? (· == other) with
    | none =>
      -- The path would have been added.
      rw [known] at there
      have longer : other :: run.strangers = run.strangers :=
        congrArg Run.strangers (Prod.mk.inj there).2
      simpa using congrArg List.length longer
    | some stranger =>
      rw [known] at there
      obtain ⟨rfl, _⟩ := Prod.mk.inj there
      have kept : here.strangers.find? (· == other) = some stranger := by
        rw [same]
        split
        · exact known
        · split
          · exact known
          · rename_i absent
            have apart : ¬ (path == other) = true := by
              intro alike
              have asked : (stranger == other) = true := by simpa using List.find?_some known
              have listed := List.mem_of_find?_eq_some known
              exact List.find?_eq_none.1 absent stranger listed
                (BEq.trans asked (BEq.symm alike))
            exact (List.find?_cons_of_neg (p := (· == other)) apart).trans known
      rw [kept]

/-- A scope that is there is found from every state with the same missing files. -/
theorem scopeAt_stays (there : (setting.scopeAt path).run run = (scope, run))
    (same : here.strangers = run.strangers) :
    (setting.scopeAt path).run here = (scope, here) := by
  have again : (setting.scopeAt path).run here = (((setting.scopeAt path).run run).1, here) :=
    scopeAt_again (by rw [there, same])
  rwa [there] at again

end Setting

/-- Within a node that is left again, the state is restored as well. -/
theorem Run.Restored.within {setting : Setting} {before after : Run} {around : Reference}
    (inner : Run.Restored setting { before with stack := around :: before.stack } after) :
    Run.Restored setting before { after with stack := after.stack.tail } where
  stack := by rw [inner.stack, List.tail_cons]
  overrides := inner.overrides
  inProgress := inner.inProgress
  cycles := inner.cycles
  values := inner.values
  scopes there :=
    Setting.scopeAt_stays (inner.scopes (Setting.scopeAt_stays there rfl)) rfl
  unkept := inner.unkept

/-- Whatever the working state is, an evaluation restores it, also within a node that is put around
it: what was around, in force or in progress is so again, what was known is known, and under a gate
or overrides nothing more is known. -/
theorem evaluate_restores (setting : Setting) (path : Path) (expr : Expr) (run : Run) :
    run.Restored setting ((setting.evaluate path expr).run run).2 ∧
      ∀ around : Reference,
        run.Restored setting ((Run.within around (setting.evaluate path expr)).run run).2 := by
  have restored : ∀ run : Run, run.Restored setting ((setting.evaluate path expr).run run).2 := by
    intro run
    obtain ⟨place, strangers, box, after, _, located, evaluated, returns, ends⟩ :=
      setting.evaluate_spec path run expr
    have same : after.strangers = ((setting.scopeAt path).run run).2.strangers := by
      rw [located]
      exact returns.strangers
    rw [evaluated]
    refine ⟨returns.stack, returns.overrides, returns.inProgress, returns.cycles, returns.values,
      fun there => Setting.scopeAt_other there same, fun sensitive => ?_⟩
    have forgets : setting.guard = .remembering false := by
      simp only [Setting.guard, Policy.isStackSensitive]
      rcases sensitive with gated | overridden
      · rw [gated]
        rfl
      · rw [overridden, Bool.or_true]
        rfl
    have ended := ends _ (Nat.le_refl _)
    rw [forgets] at ended
    exact (Evaluation.resumes ended).2
  exact ⟨restored run, fun around => (restored { run with stack := around :: run.stack }).within⟩

end Glean
