import Mathlib.Data.List.Induction
import Glean.Proofs.Evaluation.Search
import Glean.Proofs.PlainRecursion
import Glean.Proofs.Stars

/-!
# Exports found through other modules

A module that exports all exports of others exports what a search through them finds. When there is
one module to find, and the search never comes back to a file that it is still searching, it comes
to what that module exports under the name (`export_found_of_clear`).

The modules on the way are in progress when the search arrives, and are not when the export is asked
for alone. That makes no difference, because whatever leads back to one of them leads on to the
origin (`Setting.Sole.widened`).
-/

namespace Glean

open Syntax Box

/-- Of the modules that are reached from `start`, the one at `origin` is the only one that exports
the name itself. -/
structure Setting.Sole (setting : Setting) (name : String) (origin start : Path) : Prop where
  entered : setting.policy.flags.skipFiles = false
  ordinary : name ≠ standardName
  stated : ((setting.project.scope origin).export? name).isSome
  only : ∀ path, setting.project.Reaches path start →
    ((setting.project.scope path).export? name).isSome → path.components = origin.components

namespace Setting.Sole

open Evaluation

variable {setting : Setting} {name : String} {node : Reference} {origin start path place : Path}
  {fuel : Nat} {run after : Run} {box : Box}

/-- It is enough that no other file exports the name. -/
theorem of_files (entered : setting.policy.flags.skipFiles = false) (ordinary : name ≠ standardName)
    (stated : ((setting.project.scope origin).export? name).isSome)
    (alone : ∀ entry ∈ setting.project.files, (entry.2.scope.export? name).isSome →
      entry.2.path.components = origin.components) : setting.Sole name origin start :=
  ⟨entered, ordinary, stated, fun _ _ found => Project.components_of_stated alone found⟩

/-- Where files are entered, sources lead where the project resolves them. -/
theorem target?_eq (sole : setting.Sole name origin start) (scope : Scope) (source : String) :
    setting.target? scope source = setting.project.resolve? scope.file source := by
  simp [target?, sole.entered]

/-- A source of a module leads along an edge. -/
theorem star (sole : setting.Sole name origin start) {source : String}
    (listed : source ∈ (setting.project.scope path).stars)
    (target : setting.target? (setting.project.scope path) source = some place) :
    setting.project.Star path place :=
  ⟨source, listed, sole.target?_eq _ _ ▸ target⟩

/-- The export of a module is in progress, or it is worked out while it is. -/
theorem exported_cases (known : run.known = [])
    (ended : Evaluation.run setting (.remembering false) (fuel + 1) (.exported path name node) run =
      some (box, after)) :
    (.exported path.components name ∈ run.inProgress ∧ box.reason? = some .cycle) ∨
      (.exported path.components name ∉ run.inProgress ∧ ∃ middle,
        step setting Guard.plain (Evaluation.run setting (.remembering false) fuel)
          (.exported path name node) (run.begin (.exported path.components name)) =
            some (box, middle)) := by
  rw [run_of_goal rfl] at ended
  simp only [Project.components_scope] at ended
  rcases Eval.remembering_cases ended with ⟨found, _⟩ | ⟨_, entered, rfl, _⟩ |
    ⟨_, fresh, middle, started, _⟩
  · rw [known] at found
    cases found
  · exact .inl ⟨entered, rfl⟩
  · exact .inr ⟨fresh, middle, started⟩

/-- A module that is not the origin searches the modules whose exports it exports. -/
theorem searched (sole : setting.Sole name origin start)
    (reached : setting.project.Reaches path start) (away : path.components ≠ origin.components)
    (ended : step setting Guard.plain (Evaluation.run setting (.remembering false) fuel)
      (.exported path name node) run = some (box, after)) :
    Searched setting (Evaluation.run setting (.remembering false) fuel)
      (setting.project.scope path) name node run box after (setting.project.scope path).stars := by
  have unstated : (setting.project.scope path).export? name = none := by
    cases stated : (setting.project.scope path).export? name with
    | none => rfl
    | some => exact absurd (sole.only path reached (by simp [stated])) away
  simp only [step, exported, Guard.plain, unstated, sole.ordinary, if_false] at ended
  exact Evaluation.searched (run_steady setting fuel) ended

/-- While the export of the origin is in progress, the search for it ends in a cycle or leaves it
unbound; the latter only from modules that do not reach the origin. -/
theorem caught (sole : setting.Sole name origin start)
    (reached : setting.project.Reaches path start) (known : run.known = [])
    (entered : .exported origin.components name ∈ run.inProgress)
    (ended : Evaluation.run setting (.remembering false) fuel (.exported path name node) run =
      some (box, after)) :
    box.reason? = some .cycle ∨
      (box.reason? = some .unbound ∧ ¬setting.project.Reaches origin path) := by
  induction fuel generalizing path run box after with
  | zero => cases ended
  | succ fuel ih =>
    rcases exported_cases known ended with ⟨_, cycle⟩ | ⟨fresh, middle, started⟩
    · exact .inl cycle
    · have away : path.components ≠ origin.components := fun same => fresh (same ▸ entered)
      -- The modules along the edges are asked while more is in progress, the origin still among it.
      have inner : ∀ {place : Path} {value : Box} {final : Run}, setting.project.Star path place →
          Asked (Evaluation.run setting (.remembering false) fuel) name node
            (run.begin (.exported path.components name)) place value final →
          value.reason? = some .cycle ∨
            (value.reason? = some .unbound ∧ ¬setting.project.Reaches origin place) := by
        intro place value final edge asked
        obtain ⟨before, ⟨returns, same⟩, ended⟩ := asked
        refine ih (reached.trans (.edge edge)) (same.trans known) ?_ ended
        rw [returns.inProgress]
        exact List.mem_cons_of_mem _ entered
      cases sole.searched reached away started with
      | nothing unbound passes =>
        refine .inr ⟨unbound, fun reaches => ?_⟩
        cases reaches with
        | here same => exact away same
        | star edge rest =>
          obtain ⟨source, listed, target⟩ := edge
          obtain ⟨value, final, asked, left⟩ :=
            passes source listed _ ((sole.target?_eq _ _).trans target)
          rcases inner ⟨source, listed, target⟩ asked with cycle | ⟨_, misses⟩
          · cases left.symm.trans cycle
          · exact misses rest
      | found stated target asked bound _ =>
        have edge := sole.star (stated ▸ List.mem_append_right _ (List.mem_cons_self ..)) target
        exact .inl ((inner edge asked).resolve_right fun passed => bound passed.1)

/-- Of two memories without values, with the export of the origin in progress, the second one has
more in progress: searches for that export in modules from which the origin is reached. -/
def Widened (setting : Setting) (name : String) (origin start : Path) (left right : Memory) :
    Prop :=
  left.known = [] ∧ right.known = [] ∧ .exported origin.components name ∈ left.inProgress ∧
    left.inProgress ⊆ right.inProgress ∧
    ∀ goal ∈ right.inProgress, goal ∉ left.inProgress → ∃ path,
      goal = .exported path.components name ∧ setting.project.Reaches path start ∧
        setting.project.Reaches origin path

/-- A memory that is widened still is so with one goal more on both sides. -/
theorem Widened.cons {left right : Memory} (widened : Widened setting name origin start left right)
    (goal : Goal) (cycles others : Nat) :
    Widened setting name origin start ⟨left.known, goal :: left.inProgress, cycles⟩
      ⟨right.known, goal :: right.inProgress, others⟩ := by
  obtain ⟨known, knownTwin, entered, more, searches⟩ := widened
  refine ⟨known, knownTwin, List.mem_cons_of_mem _ entered, List.cons_subset_cons goal more,
    fun other listed away => ?_⟩
  rcases List.mem_cons.1 listed with rfl | listed
  · exact absurd (List.mem_cons_self ..) away
  · exact searches other listed fun found => away (List.mem_cons_of_mem _ found)

/-- A memory that is widened still is so after evaluations that keep nothing. -/
theorem Widened.resume {left right after final : Run}
    (widened : Widened setting name origin start left.memory right.memory)
    (first : left.Resumes after) (second : right.Resumes final) :
    Widened setting name origin start after.memory final.memory := by
  obtain ⟨returns, known⟩ := first
  obtain ⟨returnsTwin, knownTwin⟩ := second
  simp only [Widened, Run.memory, known, knownTwin, returns.inProgress, returnsTwin.inProgress]
  exact widened

/-- A task for the export under the name, while that of the origin is in progress. -/
theorem caught_of_goal (sole : setting.Sole name origin start) {task : Task}
    (asked : task.goal? setting = some (.exported path.components name))
    (reached : setting.project.Reaches path start) (reaches : setting.project.Reaches origin path)
    (known : run.known = []) (entered : .exported origin.components name ∈ run.inProgress)
    (ended : Evaluation.run setting (.remembering false) fuel task run = some (box, after)) :
    box.reason? = some .cycle := by
  cases task with
  | expr | whole => cases asked
  | binding =>
    obtain ⟨_, _, _, same⟩ := Task.goal?_binding asked
    cases same
  | exported place other node =>
    rw [Task.goal?, Project.components_scope] at asked
    obtain ⟨same, rfl⟩ : place.components = path.components ∧ other = name := by simpa using asked
    have reachedPlace := reached.trans (.here same.symm)
    refine (sole.caught reachedPlace known entered ended).resolve_right fun passed => ?_
    exact passed.2 (reaches.congr same.symm)

/-- Once the export of the origin is in progress, it makes no difference whether the searches that
led to it are in progress as well. A cycle is found either way: at the search, or at the origin to
which the search leads again. -/
theorem widened (sole : setting.Sole name origin start) (fuel : Nat) {task twin : Task}
    (same : task.Alike setting .blind twin) :
    (Comparison.simulation setting.policy .blind Memory.never
        (Widened setting name origin start)).Gives
      (Evaluation.run setting (.remembering false) fuel task)
      (Evaluation.run setting (.remembering false) fuel twin) := by
  induction fuel generalizing task twin with
  | zero => exact .of_failure _
  | succ fuel ih =>
    have body := Comparison.step_related (Comparison.simulation setting.policy .blind Memory.never
      (Widened setting name origin start)) same fun part other _ alike => ih alike
    cases asked : task.goal? setting with
    | none =>
      rw [Evaluation.run, step_eq, step_eq setting _ _ twin, ← same.goal?, asked]
      exact body
    | some goal =>
      refine .of_ends fun {left right after box} corresponds ended => ?_
      suffices ∃ value final, Evaluation.run setting (.remembering false) (fuel + 1) twin right =
          some (value, final) ∧ Alike .blind box value by
        obtain ⟨value, final, endsTwin, alike⟩ := this
        exact ⟨value, final, endsTwin, corresponds.resume Widened.resume (resumes ended)
          (resumes endsTwin), alike⟩
      obtain ⟨known, knownTwin, entered, more, searches⟩ := corresponds.memories
      have unknown : right.known.lookup goal = none := by
        rw [show right.known = [] from knownTwin]
        rfl
      have begun := ended
      rw [run_of_goal asked] at begun
      rw [run_of_goal (same.goal?.symm.trans asked)]
      rcases Eval.remembering_cases begun with ⟨found, _⟩ | ⟨_, found, rfl, _⟩ |
        ⟨_, fresh, middle, started, _⟩
      · rw [show left.known = [] from known] at found
        cases found
      · exact ⟨_, _, Eval.remembering_cycle unknown (more found),
          alike_unresolvable same.node .cycle⟩
      · -- A search that only the right one is in ends there at once, in a cycle. The left one goes
        -- on and finds a cycle at the origin.
        by_cases searching : goal ∈ right.inProgress
        · obtain ⟨path, rfl, reached, reaches⟩ := searches goal searching fresh
          have cycle := sole.caught_of_goal asked reached reaches known entered ended
          exact ⟨_, _, Eval.remembering_cycle unknown searching, alike_of_reason? cycle rfl⟩
        · have entering : (left.begin goal).Corresponds setting.policy
              (Widened setting name origin start) (right.begin goal) :=
            ⟨corresponds.memories.cons goal _ _, corresponds.stack, corresponds.overrides,
              corresponds.free⟩
          obtain ⟨value, final, finalEnds, _, alike⟩ := body.elim entering started
          exact ⟨value, _, Eval.remembering_begin unknown searching finalEnds, alike⟩

/-- From searches on the way to the origin, its export comes to the box that it has alone. -/
theorem arrived (sole : setting.Sole name origin start) {width : Nat} {value : Box} {final : Run}
    {twin : Reference}
    (alone : Evaluation.run setting (.remembering false) width (.exported origin name twin) {} =
      some (value, final))
    (same : path.components = origin.components) (known : run.known = []) (stack : run.stack = [])
    (overrides : run.overrides = [])
    (searches : ∀ goal ∈ run.inProgress, ∃ place, goal = .exported place.components name ∧
      place.components ≠ path.components ∧ setting.project.Reaches place start ∧
        setting.project.Reaches origin place)
    (ended : Evaluation.run setting (.remembering false) fuel (.exported path name node) run =
      some (box, after)) : Alike .blind value box := by
  have enough : width ≤ max width fuel + 1 := by omega
  have enoughHere : fuel ≤ max width fuel + 1 := by omega
  obtain ⟨_, alone⟩ := run_raise enough (fun _ => rfl) alone
  obtain ⟨_, ended⟩ := run_raise enoughHere (fun _ => overrides) ended
  rcases exported_cases rfl alone with ⟨found, _⟩ | ⟨_, _, started⟩
  · cases found
  rcases exported_cases known ended with ⟨found, _⟩ | ⟨_, _, startedHere⟩
  · obtain ⟨place, asked, away, _⟩ := searches _ found
    exact absurd (Goal.exported.inj asked).1.symm away
  obtain ⟨stated, exports⟩ := Option.isSome_iff_exists.1 sole.stated
  have scopes := Project.scope_congr (Project.isSome_file?_of_stated exports) same.symm
  have asks : Task.Alike setting .blind (.exported origin name twin) (.exported path name node) :=
    .exported scopes name rfl
  have body := Comparison.step_related (Comparison.simulation setting.policy .blind Memory.never
    (Widened setting name origin start)) asks
    fun part other _ alike => sole.widened (max width fuel) alike
  -- Alone only the origin is in progress; here the searches that led to it are as well.
  have corresponds : (Run.begin {} (.exported origin.components name)).Corresponds setting.policy
      (Widened setting name origin start) (run.begin (.exported path.components name)) := by
    refine ⟨⟨rfl, known, List.mem_cons_self .., ?_, fun goal listed away => ?_⟩,
      fun _ => stack.symm, overrides.symm, fun _ => rfl⟩
    · simp [Run.memory, Run.begin, same]
    · rcases List.mem_cons.1 listed with rfl | listed
      · simp [Run.memory, Run.begin, same] at away
      · obtain ⟨place, rfl, _, reached, reaches⟩ := searches goal listed
        exact ⟨place, rfl, reached, reaches⟩
  obtain ⟨_, _, reached, _, alike⟩ := body.elim corresponds started
  obtain ⟨rfl, _⟩ := Prod.mk.inj (Option.some_inj.1 (reached.symm.trans startedHere))
  exact alike

/-- Among sources that were passed over, none leads to a module that reaches the origin, when no
such module leaves the export unbound. -/
theorem misses (sole : setting.Sole name origin start) {next : Task → Eval Box} {passed : Prop}
    (away : path.components ≠ origin.components) {before rest : List String}
    (stated : (setting.project.scope path).stars = before ++ rest)
    (passes : Passes setting next (setting.project.scope path) name node run before)
    (bound : ∀ {place : Path} {value : Box} {final : Run},
      setting.project.Tries origin passed path place →
      Asked next name node run place value final → value.reason? = some .unbound →
      ¬setting.project.Reaches origin place) :
    ∀ source ∈ before, ∀ place,
      setting.project.resolve? (setting.project.scope path).file source = some place →
      ¬setting.project.Reaches origin place := by
  induction before using List.reverseRecOn generalizing rest with
  | nil => exact nofun
  | append_singleton before source ih =>
    have stated : (setting.project.scope path).stars = before ++ source :: rest := by
      simpa using stated
    have earlier := ih stated fun other listed => passes other (List.mem_append_left _ listed)
    intro other listed place target
    rcases List.mem_append.1 listed with listed | listed
    · exact earlier other listed place target
    · obtain rfl := List.mem_singleton.1 listed
      obtain ⟨value, final, asked, unbound⟩ :=
        passes other (List.mem_append_right _ listed) place ((sole.target?_eq _ _).trans target)
      have tries : setting.project.Tries origin passed path place :=
        ⟨away, before, other, rest, stated, target, fun _ => earlier⟩
      exact bound tries asked unbound

/-- A search that never comes back to a file it is still searching comes to the box that the export
of the origin has alone, from every module that reaches the origin, and from no other module to any.
-/
theorem found_of_clear (sole : setting.Sole name origin start) {width : Nat} {value : Box}
    {final : Run} {twin : Reference}
    (alone : Evaluation.run setting (.remembering false) width (.exported origin name twin) {} =
      some (value, final))
    (clear : setting.project.Clear origin (value.reason? = some .unbound) start)
    {earlier : List Path}
    (way : setting.project.Way origin (value.reason? = some .unbound) start (path :: earlier))
    (known : run.known = []) (stack : run.stack = []) (overrides : run.overrides = [])
    (searches : ∀ goal ∈ run.inProgress, ∃ place ∈ earlier, goal = .exported place.components name)
    (ended : Evaluation.run setting (.remembering false) fuel (.exported path name node) run =
      some (box, after)) :
    (setting.project.Reaches origin path → Alike .blind value box) ∧
      (¬setting.project.Reaches origin path → box.reason? = some .unbound) := by
  -- Along the way only the searches of the modules before are in progress, so none is met again.
  induction fuel generalizing path earlier run box after with
  | zero => cases ended
  | succ fuel ih =>
    have reached := way.reaches path rfl
    by_cases same : path.components = origin.components
    · refine ⟨fun _ => sole.arrived alone same known stack overrides (fun goal listed => ?_) ended,
        fun misses => absurd (.here same) misses⟩
      obtain ⟨place, found, rfl⟩ := searches goal listed
      obtain ⟨from_start, to_path⟩ := reached place (List.mem_cons_of_mem _ found)
      exact ⟨place, rfl, clear.fresh way found, from_start, .trans to_path (.here same)⟩
    rcases exported_cases known ended with ⟨entered, _⟩ | ⟨_, middle, started⟩
    · obtain ⟨place, found, asked⟩ := searches _ entered
      exact absurd (Goal.exported.inj asked).1.symm (clear.fresh way found)
    have inner : ∀ {place : Path} {other : Box} {last : Run},
        setting.project.Tries origin (value.reason? = some .unbound) path place →
        Asked (Evaluation.run setting (.remembering false) fuel) name node
          (run.begin (.exported path.components name)) place other last →
        (setting.project.Reaches origin place → Alike .blind value other) ∧
          (¬setting.project.Reaches origin place → other.reason? = some .unbound) := by
      intro place other last tries asked
      obtain ⟨before, ⟨returns, unknown⟩, ended⟩ := asked
      refine ih (way.follow tries) (unknown.trans known) (returns.stack.trans stack)
        (returns.overrides.trans overrides) (fun goal listed => ?_) ended
      rw [returns.inProgress] at listed
      rcases List.mem_cons.1 listed with rfl | listed
      · exact ⟨path, List.mem_cons_self .., rfl⟩
      · obtain ⟨place, found, asked⟩ := searches goal listed
        exact ⟨place, List.mem_cons_of_mem _ found, asked⟩
    have passing : ∀ {before rest : List String},
        (setting.project.scope path).stars = before ++ rest →
        Passes setting (Evaluation.run setting (.remembering false) fuel)
          (setting.project.scope path) name node (run.begin (.exported path.components name))
          before →
        ¬value.reason? = some .unbound → ∀ source ∈ before, ∀ place,
          setting.project.resolve? (setting.project.scope path).file source = some place →
          ¬setting.project.Reaches origin place := by
      intro before rest stated passes bound
      refine sole.misses same stated passes fun
        (tries : setting.project.Tries origin (value.reason? = some .unbound) path _)
        asked unbound reaches => bound ?_
      rw [((inner tries asked).1 reaches).reason?]
      exact unbound
    cases sole.searched (reached path (List.mem_cons_self ..)).1 same started with
    | nothing unbound passes =>
      refine ⟨fun reaches => ?_, fun _ => unbound⟩
      cases reaches with
      | here here => exact absurd here same
      | star edge rest =>
        obtain ⟨source, listed, target⟩ := edge
        by_cases passed : value.reason? = some .unbound
        · exact alike_of_reason? passed unbound
        · exact absurd rest (passing (List.append_nil _).symm passes passed source listed _ target)
    | @found before rest source place stated target asked bound passes =>
      rw [sole.target?_eq] at target
      have edge : setting.project.Star path place :=
        ⟨source, stated ▸ List.mem_append_right _ (List.mem_cons_self ..), target⟩
      have found := inner ⟨same, before, source, rest, stated, target, passing stated passes⟩ asked
      by_cases reaches : setting.project.Reaches origin place
      · exact ⟨fun _ => found.1 reaches, fun misses => absurd (.star edge reaches) misses⟩
      · exact absurd (found.2 reaches) bound

end Setting.Sole

namespace Setting

variable {setting : Setting}

/-- What a module exports under a name, evaluated with enough fuel. -/
def exportBox? (setting : Setting) (path : Path) (name : String) (node : Reference) (run : Run) :
    Option Box :=
  let task := Task.exported path name node
  (Evaluation.run setting setting.guard (setting.depth run.inProgress task) task run).map Prod.fst

/-- From an idle state an export comes to the box of the run that starts with nothing and keeps
nothing. -/
theorem Idle.exportBox? {run : Run} (idle : setting.Idle run) {path : Path}
    (found : (setting.project.file? path).isSome) (name : String) (node : Reference) :
    ∃ fuel box after value, Evaluation.run setting (.remembering false) fuel
        (.exported path name node) {} = some (box, after) ∧
      setting.exportBox? path name node run = some value ∧ Alike .blind box value := by
  have within : (Task.exported path name node).Within setting.project := found
  obtain ⟨box, after, _, ends⟩ := Evaluation.run_ends false within {}
  obtain ⟨value, final, returns, endsHere⟩ :=
    Evaluation.run_ends (!setting.policy.isStackSensitive) within run
  have alone := ends _ (Nat.le_refl _)
  have ended := endsHere _ (Nat.le_refl _)
  rw [idle.inProgress] at ended
  refine ⟨_, box, after, value, alone, ?_, (idle.run within returns alone ended).1⟩
  rw [Setting.exportBox?, idle.inProgress]
  exact congrArg (Option.map Prod.fst) ended

end Setting

/-- When one of the modules that a module reaches by exporting all exports of others is the only one
that exports a name itself, both export the same under the name, whatever was evaluated before,
provided the search never comes back to a file that it is still searching. -/
theorem export_found_of_clear (setting : Setting) (calls : List (Path × Expr)) (name : String)
    (node twin : Reference) (origin start : Path) (sole : setting.Sole name origin start)
    (reaches : setting.project.Reaches origin start) :
    let before := ((setting.evaluateAll calls).run {}).2
    ∃ value, setting.exportBox? origin name node before = some value ∧
      (setting.project.Clear origin (value.reason? = some .unbound) start →
        ∃ box, setting.exportBox? start name twin before = some box ∧ (box == value) = true) := by
  intro before
  have idle : setting.Idle before := (setting.idle_start []).evaluateAll calls
  obtain ⟨stated, exports⟩ := Option.isSome_iff_exists.1 sole.stated
  have found := Project.isSome_file?_of_stated exports
  obtain ⟨_, first, _, value, alone, valued, alikeValue⟩ := idle.exportBox? found name node
  obtain ⟨_, second, _, box, searching, boxed, alikeBox⟩ :=
    idle.exportBox? (reaches.isSome_file? found) name twin
  refine ⟨value, valued, fun clear => ⟨box, boxed, ?_⟩⟩
  rw [← alikeValue.reason?] at clear
  have alike := (sole.found_of_clear alone clear .begin rfl rfl rfl
    (fun _ listed => absurd listed List.not_mem_nil) searching).1 reaches
  exact (alikeBox.symm.trans (alike.symm.trans alikeValue)).beq

/-- A module that exports all exports of others, in this order. -/
def starModule (sources : List String) : Module :=
  ⟨sources.map fun source => .exportAll source false⟩

/-- `export const n = "x"` -/
def statingModule : Module :=
  ⟨[.exportDeclaration (.declarations
    [.mk (.ident ⟨"n", 1⟩) (some (.literal ⟨18, 21⟩ (.string "x")))])]⟩

/-- `/t.ts` exports a name, `/m.ts` all exports of others in a given order, and `/b.ts` all exports
of `/m.ts`. -/
def starProject (sources : List String) : Project :=
  ((Project.insert {} (Document.make ⟨"/m.ts"⟩ "" (starModule sources))).insert
    (Document.make ⟨"/b.ts"⟩ "" (starModule ["./m"]))).insert
      (Document.make ⟨"/t.ts"⟩ "" statingModule)

/-- The search ends at `/t.ts`, before it comes to `/b.ts`, which leads back. -/
theorem clear_starProject {passed : Prop} (bound : ¬passed) :
    (starProject ["./t", "./b"]).Clear ⟨"/t.ts"⟩ passed ⟨"/m.ts"⟩ := by
  have stars : ((starProject ["./t", "./b"]).scope ⟨"/m.ts"⟩).stars = ["./t", "./b"] := by
    decide +kernel
  have resolved : (starProject ["./t", "./b"]).resolve?
      ((starProject ["./t", "./b"]).scope ⟨"/m.ts"⟩).file "./t" = some ⟨"/t.ts"⟩ := by
    decide +kernel
  have ways : ∀ way, (starProject ["./t", "./b"]).Way ⟨"/t.ts"⟩ passed ⟨"/m.ts"⟩ way →
      way = [⟨"/m.ts"⟩] ∨ way = [⟨"/t.ts"⟩, ⟨"/m.ts"⟩] := by
    intro way is
    induction is with
    | begin => exact .inl rfl
    | follow _ tries ih =>
      obtain ⟨away, before, source, after, listed, target, misses⟩ := tries
      rcases ih with same | same <;> obtain ⟨rfl, rfl⟩ := List.cons_eq_cons.1 same
      · rw [stars] at listed
        cases before with
        | nil =>
          obtain ⟨rfl, _⟩ := List.cons_eq_cons.1 listed
          exact .inr (by rw [Option.some_inj.1 (resolved.symm.trans target)])
        | cons first rest =>
          obtain ⟨rfl, _⟩ := List.cons_eq_cons.1 listed
          exact absurd (.here rfl) (misses bound "./t" (List.mem_cons_self ..) _ resolved)
      · exact absurd rfl away
  intro way is
  rcases ways way is with rfl | rfl <;> decide +kernel

/-- Past a module that leads back to itself an export is found. -/
theorem export_found_past_cycle :
    let setting : Setting := { project := starProject ["./t", "./b"] }
    let node : Reference := ⟨⟨"/m.ts"⟩, ⟨0, 0⟩, .expr⟩
    let origin : Path := ⟨"/t.ts"⟩
    let start : Path := ⟨"/m.ts"⟩
    setting.project.Star start ⟨"/b.ts"⟩ ∧ setting.project.Star ⟨"/b.ts"⟩ start ∧
      setting.Sole "n" origin start ∧ setting.project.Reaches origin start ∧
      ∃ value, setting.exportBox? origin "n" node {} = some value ∧
        setting.project.Clear origin (value.reason? = some .unbound) start ∧
        ∃ box, setting.exportBox? start "n" node {} = some box ∧ (box == value) = true := by
  intro setting node origin start
  have sole : setting.Sole "n" origin start :=
    .of_files rfl (by decide) (by decide +kernel) (by decide +kernel)
  have reaches : setting.project.Reaches origin start :=
    .star ⟨"./t", by decide +kernel, by decide +kernel⟩ (.here rfl)
  obtain ⟨value, valued, finds⟩ :=
    export_found_of_clear setting [] "n" node node origin start sole reaches
  have bound : ¬value.reason? = some .unbound := by
    have text : (setting.exportBox? origin "n" node {}).bind Box.reason? = none := by
      decide +kernel
    rw [show setting.exportBox? origin "n" node {} = some value from valued] at text
    exact fun unbound => nomatch text.symm.trans unbound
  have clear : setting.project.Clear origin (value.reason? = some .unbound) start :=
    clear_starProject bound
  exact ⟨⟨"./b", by decide +kernel, by decide +kernel⟩,
    ⟨"./m", by decide +kernel, by decide +kernel⟩, sole, reaches, value, valued, clear, finds clear⟩

/-- A module that leads back to one that is still searched ends the search before the module that
exports the name. -/
theorem not_export_found_through_cycle :
    let setting : Setting := { project := starProject ["./b", "./t"] }
    let node : Reference := ⟨⟨"/m.ts"⟩, ⟨0, 0⟩, .expr⟩
    let origin : Path := ⟨"/t.ts"⟩
    let start : Path := ⟨"/m.ts"⟩
    setting.Sole "n" origin start ∧ setting.project.Reaches origin start ∧
      setting.exportBox? origin "n" node {} == some (.text "x" none) ∧
      setting.exportBox? start "n" node {} == some (.unresolvable .cycle none) ∧
      (setting.exportBox? start "n" node {} == setting.exportBox? origin "n" node {}) = false := by
  intro setting node origin start
  exact ⟨.of_files rfl (by decide) (by decide +kernel) (by decide +kernel),
    .star ⟨"./t", by decide +kernel, by decide +kernel⟩ (.here rfl), by decide +kernel,
    by decide +kernel, by decide +kernel⟩

end Glean
