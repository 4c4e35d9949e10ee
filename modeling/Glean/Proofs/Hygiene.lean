import Glean.Proofs.Evaluation.Reachable
import Glean.Proofs.Evaluation.Renaming
import Mathlib.Logic.Equiv.Basic

/-!
# Names make no difference

An identifier of a file may be replaced by one that is not in the file: under a policy that does not
look at nodes, every expression of every file keeps its box (`evaluate_renamed`). The name of the
identifier must not be spelled: it is not exported, it is no import without a name of its own, no
shorthand and no shorthand pattern. And neither name has a value without a binding.

To replace an identifier by a fresh one is to exchange the two. The exchange is injective, so goals
that are apart stay apart.
-/

namespace Glean

open Syntax Box

namespace Syntax

/-- Puts an identifier in the place of another one. -/
def Id.replace (old new id : Id) : Id := if id = old then new else id

variable {old new : Id}

/-- Apart from the new name, replacing the old one swaps the two. -/
theorem Id.replace_eq_swap {id : Id} (apart : id ≠ new) :
    replace old new id = Equiv.swap old new id := by
  by_cases same : id = old
  · rw [same, replace, if_pos rfl, Equiv.swap_apply_left]
  · rw [replace, if_neg same, Equiv.swap_apply_of_ne_of_ne same apart]

/-- The exchange keeps the names that are spelled when neither identifier is. -/
theorem Module.keeps_swap {module : Module} (kept : old ∉ module.spelled)
    (fresh : new ∉ module.ids) : module.Keeps (Equiv.swap old new) := by
  intro id spelled
  have apart : id ≠ old := fun same => kept (same ▸ spelled)
  have apartNew : id ≠ new := fun same => fresh (same ▸ mem_ids_of_spelled spelled)
  rw [Equiv.swap_apply_of_ne_of_ne apart apartNew]

/-- The exchange of names without a value of their own leaves such values alone. -/
theorem Id.builtin?_swap (plain : builtin? old.name = none) (plainNew : builtin? new.name = none)
    (id : Id) : builtin? (Equiv.swap old new id).name = builtin? id.name := by
  by_cases same : id = old
  · rw [same, Equiv.swap_apply_left, plain, plainNew]
  · by_cases sameNew : id = new
    · rw [sameNew, Equiv.swap_apply_right, plain, plainNew]
    · rw [Equiv.swap_apply_of_ne_of_ne same sameNew]

end Syntax

/-- The renaming of the identifiers of one file only. -/
def Renaming.only (path : Path) (change : Id → Id) : Renaming :=
  fun file => if file = path.components then change else id

namespace Renaming

variable {path other : Path} {change : Id → Id}

/-- The renaming of one file changes the names of that file. -/
theorem only_of_same (same : (path == other) = true) : only path change other.components = change :=
  if_pos (Path.beq_iff.1 same).symm

/-- The renaming of one file leaves the names of other files. -/
theorem only_of_apart (apart : (path == other) = false) : only path change other.components = id :=
  if_neg fun same => by simp [Path.beq_iff.2 same.symm] at apart

end Renaming

/-- A file of a project is exchanged for its renamed form. -/
theorem Project.Renames.insert {project : Project} {file : Document} {change : Id → Id}
    (found : project.file? file.path = some file) (injective : Function.Injective change)
    (keeps : file.module.Keeps change)
    (values : ∀ id : Id, builtin? (change id).name = builtin? id.name) :
    project.Renames (.only file.path change) (project.insert (file.rename change)) where
  aliases := rfl
  files path := by
    cases same : file.path == path with
    | true =>
      have here : (project.insert (file.rename change)).file? path = some (file.rename change) :=
        (Project.file?_congr _ same).symm.trans (Project.file?_insert project _)
      rw [here, ← Project.file?_congr project same, found, Option.map_some,
        Renaming.only_of_same (BEq.refl file.path)]
    | false =>
      rw [Project.file?_insert_of_ne project (file.rename change) same]
      cases foundOther : project.file? path with
      | none => rfl
      | some other =>
        have place : other.path.components = path.components :=
          Path.beq_iff.1 (Project.path_of_file? foundOther).1
        rw [Option.map_some, place, Renaming.only_of_apart same, Document.rename_id]
  injective components := by
    rw [Renaming.only]
    split
    · exact injective
    · exact Function.injective_id
  keeps path other foundOther := by
    cases same : file.path == other.path with
    | true =>
      have place : (other.path == path) = true := (Project.path_of_file? foundOther).1
      have here : project.file? path = some file :=
        (Project.file?_congr project (BEq.trans same place)).symm.trans found
      obtain rfl : other = file := Option.some_inj.1 (foundOther.symm.trans here)
      rw [Renaming.only_of_same same]
      exact keeps
    | false =>
      rw [Renaming.only_of_apart same]
      exact fun _ _ => rfl
  values components id := by
    rw [Renaming.only]
    split
    · exact values id
    · rfl

section

variable {names : Renaming} {project other : Project} {policy : Policy} {path : Path}
  {file : Document} {expr : Expr}

/-- When files are renamed, an expression of a file comes to the same box from the start, node
references included. -/
theorem Setting.evaluate_rename (calm : policy.isStackSensitive = false)
    (renames : project.Renames names other) (found : project.file? path = some file)
    (keeps : (Node.expr expr).Keeps (names path.components)) :
    ((Setting.evaluate { project, policy } path expr).run {}).1 =
      ((Setting.evaluate { project := other, policy } path
        (expr.rename (names path.components))).run {}).1 := by
  have place : names.of file.scope = names path.components :=
    congrArg names (file.scope_file ▸ Path.beq_iff.1 (Project.path_of_file? found).1)
  have foundTwin : other.file? path = some (file.rename (names file.path.components)) := by
    rw [renames.files, found]
    rfl
  have scope : project.scope path = file.scope := by rw [Project.scope, found]
  have held : project.scope file.scope.file = file.scope := scope ▸ project.scope_scope path
  have scopeTwin : (file.rename (names file.path.components)).scope = file.scope.under names := by
    have under := renames.scope_under path
    rwa [Project.scope, foundTwin, scope] at under
  obtain ⟨box, after, evaluated, _, ends⟩ :=
    @Setting.evaluate_of_found { project, policy } path {} file found expr
  obtain ⟨value, last, evaluatedTwin, _, endsTwin⟩ := @Setting.evaluate_of_found
    { project := other, policy } path {} _ foundTwin (expr.rename (names path.components))
  rw [← place] at keeps evaluatedTwin endsTwin ⊢
  -- One fuel is enough for both evaluations.
  let fuel := max (Setting.fuel { project, policy } expr)
    (Setting.fuel { project := other, policy } (expr.rename (names.of file.scope)))
  have ended := ends fuel (Nat.le_max_left ..)
  have endedTwin := endsTwin fuel (Nat.le_max_right ..)
  have carries := Evaluation.run_rename calm renames (!policy.isStackSensitive) fuel
    (show (Task.expr file.scope expr).Keeps names project from ⟨held, keeps⟩) {} rfl
  rw [scopeTwin] at endedTwin
  have same := endedTwin.symm.trans (carries.1.trans (congrArg (Option.map _) ended))
  rw [evaluated, evaluatedTwin]
  exact (Prod.mk.inj (Option.some_inj.1 same)).1.symm

/-- When files are renamed, an expression of a file comes to equal boxes from all states between
evaluations. -/
theorem Setting.Reachable.evaluate_rename {run twin : Run}
    (reachable : Setting.Reachable { project, policy } run)
    (reachableTwin : Setting.Reachable { project := other, policy } twin)
    (calm : policy.isStackSensitive = false) (renames : project.Renames names other)
    (found : project.file? path = some file)
    (keeps : (Node.expr expr).Keeps (names path.components)) :
    Alike .blind ((Setting.evaluate { project, policy } path expr).run run).1
      ((Setting.evaluate { project := other, policy } path
        (expr.rename (names path.components))).run twin).1 := by
  have there : (project.file? path).isSome := by simp [found]
  have thereTwin : (other.file? path).isSome := by simp [renames.files, found]
  have start := reachable.quiet.evaluate_alike Setting.Reachable.start.quiet calm there expr
  rw [Setting.evaluate_rename calm renames found keeps] at start
  exact start.trans
    (Setting.Reachable.start.quiet.evaluate_alike reachableTwin.quiet calm thereTwin _)

end

/-- To replace an identifier of a file by one that is not in the file changes no box: not in the file
itself, where the expression is renamed as well, and not in the files that import from it. -/
theorem evaluate_renamed (project : Project) (policy : Policy) (file : Document) (old new : Id)
    (path : Path) (here : Document) (expr : Expr) (run twin : Run)
    (calm : policy.isStackSensitive = false) (found : project.file? file.path = some file)
    (kept : old ∉ file.module.spelled) (fresh : new ∉ file.module.ids)
    (plain : builtin? old.name = none) (plainNew : builtin? new.name = none)
    (foundHere : project.file? path = some here) (inside : .expr expr ∈ here.module.all)
    (reachable : Setting.Reachable { project, policy } run)
    (reachableTwin : Setting.Reachable
      { project := project.insert (file.rename (Id.replace old new)), policy } twin) :
    (((Setting.evaluate { project, policy } path expr).run run).1 ==
      ((Setting.evaluate { project := project.insert (file.rename (Id.replace old new)), policy } path
        (if file.path == path then expr.rename (Id.replace old new) else expr)).run twin).1) =
      true := by
  have swapped : ∀ id ∈ file.module.ids, Id.replace old new id = Equiv.swap old new id :=
    fun id found => Id.replace_eq_swap fun same => fresh (same ▸ found)
  rw [Document.rename_congr swapped] at reachableTwin ⊢
  have renames : project.Renames (.only file.path (Equiv.swap old new))
      (project.insert (file.rename (Equiv.swap old new))) :=
    .insert found (Equiv.injective _) (Module.keeps_swap kept fresh)
      (Id.builtin?_swap plain plainNew)
  have place : here.path.components = path.components :=
    Path.beq_iff.1 (Project.path_of_file? foundHere).1
  have keeps :
      (Node.expr expr).Keeps (Renaming.only file.path (Equiv.swap old new) path.components) :=
    place ▸ (renames.keeps path here foundHere).node inside
  have exprs : (if file.path == path then expr.rename (Id.replace old new) else expr) =
      expr.rename (Renaming.only file.path (Equiv.swap old new) path.components) := by
    cases same : file.path == path with
    | true =>
      obtain rfl : here = file := Option.some_inj.1
        (foundHere.symm.trans ((Project.file?_congr project same).symm.trans found))
      rw [if_pos rfl, Renaming.only_of_same same]
      exact Node.expr.inj
        (Node.rename_congr fun id found => swapped id (Module.mem_ids inside found))
    | false => rw [if_neg Bool.false_ne_true, Renaming.only_of_apart same, Expr.rename_id]
  rw [exprs]
  exact (reachable.evaluate_rename reachableTwin calm renames foundHere keeps).beq

/-- `import { v as x } from "./b"; const y = "in"; export default [x, y];` -/
def pairModule : Module :=
  ⟨[.importFrom "./b" false [.named ⟨"x", 1⟩ (some "v")],
    .declarations [.mk (.ident ⟨"y", 1⟩) (some (.literal ⟨41, 45⟩ (.string "in")))],
    .exportDefault ⟨47, 69⟩ (.array ⟨62, 68⟩ [some (.single (.ident ⟨63, 64⟩ ⟨"x", 1⟩)),
      some (.single (.ident ⟨66, 67⟩ ⟨"y", 1⟩))])]⟩

/-- `export const v = "out";` -/
def valueModule : Module :=
  ⟨[.exportDeclaration (.declarations [.mk (.ident ⟨"v", 1⟩)
    (some (.literal ⟨18, 23⟩ (.string "out")))])]⟩

/-- An imported name may take the name of another binding when the two are told apart. -/
theorem evaluate_renamed_import :
    let file := Document.make ⟨"/a.ts"⟩ "" pairModule
    let project := Project.insert (Project.insert {} (Document.make ⟨"/b.ts"⟩ "" valueModule)) file
    let old : Id := ⟨"x", 1⟩
    let new : Id := ⟨"y", 7⟩
    let expr : Expr := .array ⟨62, 68⟩ [some (.single (.ident ⟨63, 64⟩ ⟨"x", 1⟩)),
      some (.single (.ident ⟨66, 67⟩ ⟨"y", 1⟩))]
    let box := ((Setting.evaluate { project } file.path expr).run {}).1
    (project.file? file.path = some file ∧ old ∉ file.module.spelled ∧ new ∉ file.module.ids ∧
      builtin? old.name = none ∧ builtin? new.name = none ∧ .expr expr ∈ file.module.all) ∧
    (box == ((Setting.evaluate { project := project.insert (file.rename (Id.replace old new)) }
      file.path (expr.rename (Id.replace old new))).run {}).1) = true ∧
    (box == .list [.text "out" none, .text "in" none] none) = true := by
  intro file project old new expr box
  have found : project.file? file.path = some file := Project.file?_insert _ file
  have kept : old ∉ file.module.spelled := by decide +kernel
  have fresh : new ∉ file.module.ids := by decide +kernel
  have inside : .expr expr ∈ file.module.all :=
    List.mem_flatMap.2 ⟨.exportDefault ⟨47, 69⟩ expr, by simp [file, pairModule, Document.make, expr],
      Node.mem_all_of_child (List.mem_singleton_self _) (Node.mem_all_self _)⟩
  have plain : builtin? old.name = none := rfl
  have plainNew : builtin? new.name = none := rfl
  have renamed := evaluate_renamed project {} file old new file.path file expr {} {} rfl found kept
    fresh plain plainNew found inside .start .start
  rw [if_pos (BEq.refl file.path)] at renamed
  have value : (box == .list [.text "out" none, .text "in" none] none) = true := by decide +kernel
  exact ⟨⟨found, kept, fresh, plain, plainNew, inside⟩, renamed, value⟩

end Glean
