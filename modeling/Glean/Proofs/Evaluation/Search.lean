import Glean.Proofs.Evaluation.Plain
import Glean.Proofs.Evaluation.Steady

/-!
# Searches

A search asks one module after the other for an export until one does not leave it unbound.
Evaluations that keep nothing hardly change the state (`Run.Resumes`), so it can be told from the
end of a search which modules were asked from a state like the first one, and what they answered
(`searched`).
-/

namespace Glean

open Syntax Box

/-- A state that is reached by evaluations that keep nothing. -/
def Run.Resumes (before after : Run) : Prop := before.Returns after ∧ after.known = before.known

/-- A state resumes itself. -/
theorem Run.Resumes.refl (run : Run) : run.Resumes run := ⟨.refl run, rfl⟩

/-- Resuming is transitive. -/
theorem Run.Resumes.trans {before middle after : Run} (first : before.Resumes middle)
    (second : middle.Resumes after) : before.Resumes after :=
  ⟨first.1.trans second.1, second.2.trans first.2⟩

/-- States that correspond still do after evaluations that keep nothing. -/
theorem Run.Corresponds.resume {policy : Policy} {memories : Memory → Memory → Prop}
    {left right after final : Run} (corresponds : left.Corresponds policy memories right)
    (related : memories left.memory right.memory → left.Resumes after → right.Resumes final →
      memories after.memory final.memory) (first : left.Resumes after)
    (second : right.Resumes final) : after.Corresponds policy memories final where
  memories := related corresponds.memories first second
  stack sensitive := by rw [first.1.stack, second.1.stack, corresponds.stack sensitive]
  overrides := by rw [first.1.overrides, second.1.overrides, corresponds.overrides]
  free calm := first.1.overrides.trans (corresponds.free calm)

namespace Evaluation

variable {setting : Setting} {name : String} {node : Reference} {next : Task → Eval Box}
  {scope : Scope} {run after : Run} {box : Box}

/-- Evaluations that keep nothing. -/
theorem resumes {fuel : Nat} {task : Task}
    (ended : Evaluation.run setting (.remembering false) fuel task run = some (box, after)) :
    run.Resumes after :=
  ⟨(run_steady setting fuel task).returns ended, (run_steady setting fuel task).known ended⟩

/-- An evaluation that ends comes to the same box with more fuel. -/
theorem run_raise {fuel more : Nat} {task : Task} (le : fuel ≤ more)
    (free : setting.policy.isStackSensitive = false → run.overrides = [])
    (ended : Evaluation.run setting (.remembering false) fuel task run = some (box, after)) :
    ∃ final, Evaluation.run setting (.remembering false) more task run = some (box, final) := by
  have self : run.Corresponds setting.policy Eq run := ⟨rfl, fun _ => rfl, rfl, free⟩
  obtain ⟨value, final, ended, _, alike⟩ := (run_more le (.refl task)).elim self ended
  exact ⟨final, alike_full.1 alike ▸ ended⟩

/-- From a state like the given one, the export of a module was asked for and came to a box. -/
def Asked (next : Task → Eval Box) (name : String) (node : Reference) (run : Run) (path : Path)
    (box : Box) (after : Run) : Prop :=
  ∃ before, run.Resumes before ∧ next (.exported path name node) before = some (box, after)

/-- Every module that the sources lead to was asked for the export and left it unbound. -/
def Passes (setting : Setting) (next : Task → Eval Box) (scope : Scope) (name : String)
    (node : Reference) (run : Run) (sources : List String) : Prop :=
  ∀ source ∈ sources, ∀ path, setting.target? scope source = some path →
    ∃ box after, Asked next name node run path box after ∧ box.reason? = some .unbound

/-- What a module was asked from a state, it was asked from every state that this one resumes. -/
theorem Asked.resume {before : Run} {path : Path} (asked : Asked next name node run path box after)
    (resumes : before.Resumes run) : Asked next name node before path box after :=
  ⟨asked.choose, resumes.trans asked.choose_spec.1, asked.choose_spec.2⟩

/-- Sources that were passed from a state were passed from every state that this one resumes. -/
theorem Passes.resume {before : Run} {sources : List String}
    (passes : Passes setting next scope name node run sources) (resumes : before.Resumes run) :
    Passes setting next scope name node before sources := by
  intro source listed path target
  obtain ⟨box, after, asked, unbound⟩ := passes source listed path target
  exact ⟨box, after, asked.resume resumes, unbound⟩

/-- Sources are passed when the first leaves the name unbound and the rest are passed. -/
theorem Passes.cons {source : String} {sources : List String}
    (first : ∀ path, setting.target? scope source = some path →
      ∃ box after, Asked next name node run path box after ∧ box.reason? = some .unbound)
    (rest : Passes setting next scope name node run sources) :
    Passes setting next scope name node run (source :: sources) := by
  intro other listed
  rcases List.mem_cons.1 listed with rfl | listed
  · exact first
  · exact rest other listed

/-- How a search among sources ended: nothing was found anywhere, or the export was found at one of
the modules and nowhere before. -/
inductive Searched (setting : Setting) (next : Task → Eval Box) (scope : Scope) (name : String)
    (node : Reference) (run : Run) (box : Box) (after : Run) : List String → Prop where
  | nothing {sources : List String} (unbound : box.reason? = some .unbound)
    (passes : Passes setting next scope name node run sources) :
    Searched setting next scope name node run box after sources
  | found {sources before rest : List String} {source : String} {path : Path}
    (stated : sources = before ++ source :: rest)
    (target : setting.target? scope source = some path)
    (asked : Asked next name node run path box after) (bound : box.reason? ≠ some .unbound)
    (passes : Passes setting next scope name node run before) :
    Searched setting next scope name node run box after sources

/-- A search goes on after a source that led to nothing. -/
theorem Searched.cons {before : Run} {source : String} {sources : List String}
    (first : ∀ path, setting.target? scope source = some path →
      ∃ box after, Asked next name node before path box after ∧ box.reason? = some .unbound)
    (resumes : before.Resumes run)
    (rest : Searched setting next scope name node run box after sources) :
    Searched setting next scope name node before box after (source :: sources) := by
  cases rest with
  | nothing unbound passes => exact .nothing unbound (.cons first (passes.resume resumes))
  | found stated target asked bound passes =>
    exact .found (congrArg (source :: ·) stated) target (asked.resume resumes) bound
      (.cons first (passes.resume resumes))

/-- A search ends at the first module that does not leave the export unbound, if there is one. -/
theorem searched (steady : ∀ part, (next part).Steady) {sources : List String}
    (ended : search setting next scope name node sources run = some (box, after)) :
    Searched setting next scope name node run box after sources := by
  induction sources generalizing run with
  | nil =>
    obtain ⟨rfl, rfl⟩ := Prod.mk.inj (Option.some_inj.1 ended)
    exact .nothing rfl nofun
  | cons source rest ih =>
    cases target : setting.target? scope source with
    | none =>
      rw [search, target] at ended
      exact (ih ended).cons (fun path other => nomatch target.symm.trans other) (.refl run)
    | some path =>
      rw [search, target] at ended
      obtain ⟨⟨first, middle⟩, started, ended⟩ := Option.bind_eq_some_iff.1 ended
      have asked : Asked next name node run path first middle := ⟨run, .refl run, started⟩
      have resumes : run.Resumes middle := ⟨(steady _).returns started, (steady _).known started⟩
      by_cases unbound : first.reason? = some .unbound
      · simp only [unbound, if_true] at ended
        refine (ih ended).cons (fun place same => ?_) resumes
        obtain rfl := Option.some_inj.1 (target.symm.trans same)
        exact ⟨first, middle, asked, unbound⟩
      · simp only [unbound, if_false] at ended
        obtain ⟨rfl, rfl⟩ := Prod.mk.inj (Option.some_inj.1 ended)
        exact .found (List.nil_append _).symm target asked unbound nofun

end Evaluation

end Glean
