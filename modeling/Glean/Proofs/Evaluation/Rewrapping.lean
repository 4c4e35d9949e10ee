import Glean.Proofs.Evaluation.Avoiding
import Glean.Proofs.Evaluation.Covering
import Glean.Proofs.Evaluation.Rekeying
import Glean.Proofs.Project
import Glean.Proofs.Scope.Bare

/-!
# Evaluation of trees with other wrappers

Two projects rewrap each other when their files have the same bare forms, the source texts of the
one renamed to those of the other. Their evaluations run beside each other: where the first one ends
and avoids the source texts that are renamed, the second one ends too, with an equal box up to keys
(`Evaluation.run_rewraps`).

They need not take the same number of steps. A default export of a name is a binding, and that of a
wrapped name is an expression that leads to the binding in one step more. So the second evaluation
gets twice the fuel of the first.
-/

namespace Glean

open Syntax Box
open Eval (Mirrors)

/-- The text at a span, or another one when there is none. -/
def Document.source (file : Document) (missing : String) (span : Span) : String :=
  (file.snippet? span).getD missing

/-- The text at a span, renamed. -/
def Document.renamed (rename : String → String) (file : Document) (missing : String) (span : Span) :
    String :=
  rename (file.source missing span)

/-- The two files have one bare form when the source texts of the first are renamed. -/
structure Document.Rewraps (rename : String → String) (file twin : Document) : Prop where
  path : twin.path = file.path
  items : file.module.items.map (Node.bare (file.renamed rename)) =
    twin.module.items.map (Node.bare twin.source)

/-- The two projects hold files with the same bare forms at the same places. -/
structure Project.Rewraps (rename : String → String) (project other : Project) : Prop where
  aliases : other.aliases = project.aliases
  files : ∀ path, Option.Rel (Document.Rewraps rename) (project.file? path) (other.file? path)

/-- Two files of two projects have one bare form. -/
structure Project.Pairs (rename : String → String) (project other : Project) (file twin : Document) :
    Prop where
  held : project.file? file.path = some file
  heldTwin : other.file? twin.path = some twin
  rewraps : file.Rewraps rename twin

variable {rename : String → String} {project other : Project} {policy : Policy}
  {file twin : Document}

/-! ### Scopes -/

/-- Two bindings of a name have one bare form. -/
inductive Binding.Rewraps (source twin : String → Span → String) : Binding → Binding → Prop where
  | variable {value other : Variable} (bare : value.bare source = other.bare twin) :
    Rewraps source twin (.variable value) (.variable other)
  | imported (origin : String) (name : Imported) :
    Rewraps source twin (.imported origin name) (.imported origin name)
  | sealed : Rewraps source twin .sealed .sealed

/-- Bindings with one bare form rewrap each other. -/
theorem Binding.rewraps_of_bare {source twin : String → Span → String} {binding other : Binding}
    (bare : binding.bare source = other.bare twin) : binding.Rewraps source twin other := by
  cases binding with
  | «variable» value =>
    cases other with
    | «variable» => exact .variable (Binding.variable.inj bare)
    | _ => cases bare
  | imported origin name =>
    cases other <;> cases bare
    exact .imported ..
  | «sealed» =>
    cases other <;> cases bare
    exact .sealed

namespace Document.Rewraps

variable (rewraps : file.Rewraps rename twin)

include rewraps

/-- The scopes of files with one bare form have one bare form. -/
theorem scope_bare : file.scope.bare (file.renamed rename) = twin.scope.bare twin.source := by
  rw [file.scope_eq, twin.scope_eq, ← Scope.collect_bare, ← Scope.collect_bare, rewraps.items,
    rewraps.path]

/-- The scopes of rewrapped files are those of one path. -/
theorem scope_file_eq : file.scope.file = twin.scope.file := by
  have files := congrArg Scope.file rewraps.scope_bare
  exact files

/-- A name has one bare binding in rewrapped files. -/
theorem binding?_bare (id : Id) :
    (file.scope.binding? id).map (Binding.bare (file.renamed rename)) =
      (twin.scope.binding? id).map (Binding.bare twin.source) := by
  have bindings := congrArg Scope.bindings rewraps.scope_bare
  rw [Scope.binding?, Scope.binding?, ← Entries.get?_mapValues, ← Entries.get?_mapValues]
  exact congrArg (Entries.get? · id) bindings

/-- A name is bound in both of two rewrapped files, to bindings that rewrap each other, or in
neither. -/
theorem bindings_rewrap (id : Id) :
    Option.Rel (Binding.Rewraps (file.renamed rename) twin.source) (file.scope.binding? id)
      (twin.scope.binding? id) := by
  have bare := rewraps.binding?_bare id
  generalize file.scope.binding? id = bound at bare ⊢
  generalize twin.scope.binding? id = boundTwin at bare ⊢
  cases bound <;> cases boundTwin
  · exact .none
  · cases bare
  · cases bare
  · exact .some (Binding.rewraps_of_bare (Option.some_inj.1 bare))

/-- A name is reassigned in both of two rewrapped files or in neither. -/
theorem isReassigned_eq (id : Id) : file.scope.isReassigned id = twin.scope.isReassigned id :=
  congrArg (fun scope => scope.reassigned.contains id) rewraps.scope_bare

/-- Rewrapped files export one bare export under a name. -/
theorem export?_bare (name : String) :
    (file.scope.export? name).map (Export.bare (file.renamed rename)) =
      (twin.scope.export? name).map (Export.bare twin.source) := by
  have exports := congrArg Scope.exports rewraps.scope_bare
  rw [Scope.export?, Scope.export?, ← Entries.get?_mapValues, ← Entries.get?_mapValues]
  exact congrArg (Entries.get? · name) exports

/-- Rewrapped files state exports under the same names. -/
theorem keys_exports_eq : Entries.keys file.scope.exports = Entries.keys twin.scope.exports := by
  have exports := congrArg (fun scope => Entries.keys scope.exports) rewraps.scope_bare
  simpa [Scope.bare] using exports

/-- Rewrapped files take over the exports of the same modules. -/
theorem stars_eq : file.scope.stars = twin.scope.stars := by
  have stars := congrArg Scope.stars rewraps.scope_bare
  exact stars

end Document.Rewraps

/-! ### Files -/

namespace Project.Rewraps

variable (rewraps : project.Rewraps rename other)

include rewraps

/-- Files at one path are paired. -/
theorem exists_pairs {path : Path} (found : project.file? path = some file) :
    ∃ twin, other.file? path = some twin ∧ project.Pairs rename other file twin := by
  have files := rewraps.files path
  rw [found] at files
  cases foundTwin : other.file? path with
  | none => rw [foundTwin] at files; cases files
  | some twin =>
    rw [foundTwin] at files
    cases files with
    | some files =>
      refine ⟨twin, rfl, ?_, ?_, files⟩
      · exact (project.file?_congr (path_of_file? found).1).trans found
      · exact (other.file?_congr (path_of_file? foundTwin).1).trans foundTwin

/-- A file that one project does not have is missing in its rewrapping. -/
theorem file?_eq_none {path : Path} (missing : project.file? path = none) :
    other.file? path = none := by
  have files := rewraps.files path
  rw [missing] at files
  cases foundTwin : other.file? path with
  | none => rfl
  | some => rw [foundTwin] at files; cases files

/-- Imports lead to the same paths in a project and its rewrapping. -/
theorem resolve?_eq (importer : Path) (specifier : String) :
    other.resolve? importer specifier = project.resolve? importer specifier := by
  refine Project.resolve?_congr rewraps.aliases (fun path => ?_) importer specifier
  cases found : project.file? path with
  | none => rw [rewraps.file?_eq_none found]
  | some file =>
    obtain ⟨twin, foundTwin, _⟩ := rewraps.exists_pairs found
    rw [foundTwin]
    rfl

omit rewraps in
/-- Projects without files rewrap each other. -/
theorem empty : Project.Rewraps rename {} {} := ⟨rfl, fun _ => .none⟩

/-- Files with one bare form may be put into projects that rewrap each other. -/
theorem insert (files : file.Rewraps rename twin) :
    (project.insert file).Rewraps rename (other.insert twin) where
  aliases := rewraps.aliases
  files path := by
    by_cases here : (file.path == path) = true
    · have hereTwin : (twin.path == path) = true := files.path ▸ here
      rw [← Project.file?_congr _ here, ← Project.file?_congr _ hereTwin, Project.file?_insert,
        Project.file?_insert]
      exact .some files
    · have apart : (file.path == path) = false := Bool.not_eq_true _ ▸ here
      have apartTwin : (twin.path == path) = false := files.path ▸ apart
      rw [Project.file?_insert_of_ne _ _ apart, Project.file?_insert_of_ne _ _ apartTwin]
      exact rewraps.files path

end Project.Rewraps

namespace Project.Pairs

variable (pairs : project.Pairs rename other file twin)

include pairs

/-- Paired files import from the same places. -/
theorem target?_eq (rewraps : project.Rewraps rename other) (source : String) :
    Setting.target? { project := other, policy } twin.scope source =
      Setting.target? { project, policy } file.scope source := by
  simp only [Setting.target?, rewraps.resolve?_eq, pairs.rewraps.scope_file_eq]

/-- In the first project the source text of a span is that of the first file. -/
theorem snippet?_eq (span : Span) :
    Setting.snippet? { project, policy } file.scope span = file.snippet? span := by
  rw [Setting.snippet?, Document.scope_file, pairs.held]
  rfl

/-- In the second project the source text of a span is that of the second file. -/
theorem snippet?_twin (span : Span) :
    Setting.snippet? { project := other, policy } twin.scope span = twin.snippet? span := by
  rw [Setting.snippet?, Document.scope_file, pairs.heldTwin]
  rfl

end Project.Pairs

/-! ### Tasks -/

/-- Two tasks ask for the same of paired files. A name may be asked for by its binding in one project
and by an expression in the other, unless it has a value without a binding. -/
inductive Task.Rewraps (rename : String → String) (project other : Project) : Task → Task → Prop where
  | expr {file twin : Document} (pairs : project.Pairs rename other file twin) {expr expr' : Expr}
    (exprs : expr.Rewraps (file.renamed rename) twin.source expr') :
    Rewraps rename project other (.expr file.scope expr) (.expr twin.scope expr')
  | binding {file twin : Document} (pairs : project.Pairs rename other file twin) (id : Id)
    (node place : Reference) :
    Rewraps rename project other (.binding file.scope id node) (.binding twin.scope id place)
  | exported (path : Path) (name : String) (node place : Reference) :
    Rewraps rename project other (.exported path name node) (.exported path name place)
  | whole (path : Path) (node place : Reference) :
    Rewraps rename project other (.whole path node) (.whole path place)
  | stated {file twin : Document} (pairs : project.Pairs rename other file twin) {id : Id}
    (plain : builtin? id.name = none) {expr' : Expr} {span : Span}
    (named : expr'.unwrap = .ident span id) (node : Reference) :
    Rewraps rename project other (.binding file.scope id node) (.expr twin.scope expr')
  | named {file twin : Document} (pairs : project.Pairs rename other file twin) {id : Id}
    (plain : builtin? id.name = none) {expr : Expr} {span : Span}
    (named : expr.unwrap = .ident span id) (place : Reference) :
    Rewraps rename project other (.expr file.scope expr) (.binding twin.scope id place)

/-! ### One step -/

/-- The boxes are equal up to keys, and the first one is no text that is renamed. -/
def Box.Spares (rename : String → String) (left right : Box) : Prop :=
  left.Renames rename right ∧ ∀ value ∈ left.literal?, rename value.toText = value.toText

/-- A key and the box in place of its member's value, up to keys. -/
def Box.RenamesKeys (rename : String → String) (left right : String × Option Box) : Prop :=
  right.1 = rename left.1 ∧ Option.Rel (Box.Renames rename) left.2 right.2

/-- Noted expressions that are one have one note and one expression. -/
theorem Syntax.Expr.noted_inj {text textTwin : String} {expr twin : Expr}
    (same : expr.noted text = twin.noted textTwin) : text = textTwin ∧ expr = twin := by
  obtain ⟨-, exprs, quasis, -⟩ := Expr.tagged.inj same
  exact ⟨(Quasi.mk.inj (List.cons.inj quasis).1).2, exprs⟩

namespace Rewrapping

section

variable {next nextTwin : Task → Eval Box}
  (parts : ∀ {task twin : Task}, task.Rewraps rename project other twin →
    Mirrors policy rename (Box.Spares rename) (next task) (nextTwin twin))
  (pairs : project.Pairs rename other file twin) (node place : Reference)

include parts

/-- Parts of a step that rewrap each other come to boxes that mirror each other. -/
theorem part_mirrors {task twin : Task} (rewraps : task.Rewraps rename project other twin) :
    Mirrors policy rename (Box.Renames rename) (next task) (nextTwin twin) :=
  (parts rewraps).imp fun _ _ spares => spares.1

include pairs

/-- Templates mirror each other when their expressions rewrap each other. -/
theorem template_mirrors {quasis : List Quasi} {interpolations twins : List Expr} (done : String)
    (each : List.Forall₂ (Expr.Rewraps (file.renamed rename) twin.source) interpolations twins) :
    Mirrors policy rename (Box.Renames rename)
      (Evaluation.template next file.scope node done quasis interpolations)
      (Evaluation.template nextTwin twin.scope place done quasis twins) := by
  induction quasis generalizing done interpolations twins with
  | nil => exact .pure (.literal ..)
  | cons quasi rest ih =>
    cases each with
    | nil => exact ih _ .nil
    | cons first others =>
      refine .bind (part_mirrors parts (.expr pairs first)) fun a b renames => ?_
      cases renames.kindred with
      | literal value => exact ih _ others
      | unresolvable => exact .pure renames
      | _ => exact Mirrors.unknown ..

/-- The elements of arrays mirror each other when they rewrap each other. -/
theorem elements_mirrors {items twins : List (Option Argument)}
    (each : List.Forall₂ (fun item twin' => item.map (Argument.bare (file.renamed rename)) =
      twin'.map (Argument.bare twin.source)) items twins) :
    Mirrors policy rename (RenamesItems rename)
      (Evaluation.elements next file.scope node items)
      (Evaluation.elements nextTwin twin.scope place twins) := by
  induction each with
  | nil => exact .pure rfl
  | @cons item twin' _ _ same _ ih =>
    cases item with
    | none =>
      cases twin' with
      | none => exact .bind ih fun _ _ rest => .pure (.cons (.literal ..) rest)
      | some => cases same
    | some argument =>
      cases twin' with
      | none => cases same
      | some other =>
        have same := Option.some_inj.1 same
        cases argument with
        | single value =>
          cases other with
          | single value' =>
            have values := part_mirrors parts (.expr pairs (Argument.single.inj same))
            exact .bind values fun _ _ first => .bind ih fun _ _ rest => .pure (.cons first rest)
          | spread => cases same
        | spread value =>
          cases other with
          | single => cases same
          | spread value' =>
            have values := part_mirrors parts (.expr pairs (Argument.spread.inj same))
            exact .bind values fun _ _ first => .bind ih fun _ _ rest =>
              .pure ((first.spreadItems _ _).append rest)

/-- The texts of keys mirror each other when the keys rewrap each other and their names stay. -/
theorem keyText_mirrors {key twin' : Key} (fixed : ∀ name ∈ key.names, rename name = name)
    (same : key.note (file.renamed rename) (key.bare (file.renamed rename)) =
      twin'.note twin.source (twin'.bare twin.source)) :
    Mirrors policy rename (RenamesKeys rename)
      (Evaluation.keyText { project, policy } next file.scope key)
      (Evaluation.keyText { project := other, policy } nextTwin twin.scope twin') := by
  have stated : ∀ text : String, rename text = text → Mirrors policy rename (RenamesKeys rename)
      (pure (text, none)) (pure (text, none)) :=
    fun text fixed => .pure ⟨fixed.symm, .none⟩
  cases key with
  | computed span value =>
    cases twin' with
    | computed place value' =>
      obtain ⟨texts, values⟩ := Expr.noted_inj (Key.computed.inj same).2
      have source : Setting.sourceOfKey { project := other, policy } twin.scope place =
          rename (Setting.sourceOfKey { project, policy } file.scope span) := by
        rw [Setting.sourceOfKey, Setting.sourceOfKey, pairs.snippet?_eq, pairs.snippet?_twin]
        exact texts.symm
      refine .bind (parts (.expr pairs values)) fun a b spares => ?_
      obtain ⟨renames, spared⟩ := spares
      cases renames.kindred with
      | literal value => exact stated _ (spared value rfl)
      | unresolvable => exact .pure ⟨source, .some renames⟩
      | _ => exact .pure ⟨source, .some (.unresolvable ..)⟩
    | _ => cases same
  | name text | string text | number text | bigint text | hidden text =>
    cases twin' <;> cases same
    exact stated _ (fixed _ (List.mem_singleton_self _))

section Members

variable (injective : Function.Injective rename)
  (numerals : ∀ position : Nat, rename (toString position) = toString position)

include injective numerals

/-- Members that rewrap each other mirror each other behind related entries. -/
theorem member_mirrors {entries others : Entries String Box} {member twin' : Member}
    (fixed : ∀ name ∈ member.names, rename name = name)
    (same : member.bare (file.renamed rename) = twin'.bare twin.source)
    (before : RenamesEntries rename entries others) :
    Mirrors policy rename (RenamesEntries rename)
      (Evaluation.member { project, policy } next file.scope node entries member)
      (Evaluation.member { project := other, policy } nextTwin twin.scope place others twin') := by
  cases member with
  | spread span value =>
    cases twin' with
    | spread place' value' =>
      obtain ⟨texts, values⟩ := Expr.noted_inj (Member.spread.inj same).2
      have source : Setting.sourceOfSpread { project := other, policy } twin.scope place' =
          rename (Setting.sourceOfSpread { project, policy } file.scope span) := by
        rw [Setting.sourceOfSpread, Setting.sourceOfSpread, pairs.snippet?_eq, pairs.snippet?_twin]
        exact texts.symm
      refine .bind (part_mirrors parts (.expr pairs values)) fun a b renames => .pure ?_
      -- A spread of which nothing is known is stored under its source text.
      rw [source]
      exact renames.spread injective numerals before _ node place
    | _ => cases same
  | shorthand span id =>
    cases twin' with
    | shorthand place' id' =>
      obtain rfl := (Member.shorthand.inj same).2
      have names :
          (Expr.ident span id).Rewraps (file.renamed rename) twin.source (.ident place' id) := rfl
      have values := part_mirrors parts (.expr pairs names)
      refine .bind values fun a b renames => .pure ?_
      -- A key that is written out is not renamed.
      have inserted := before.insert injective id.name renames
      rwa [fixed _ (List.mem_singleton_self _)] at inserted
    | _ => cases same
  | keyed span key value =>
    cases twin' with
    | keyed place' key' value' =>
      obtain ⟨-, keys, values⟩ := Member.keyed.inj same
      have bare : value.Rewraps (file.renamed rename) twin.source value' := values
      have stored := part_mirrors parts (.expr pairs bare)
      refine .bind (keyText_mirrors parts pairs fixed keys) ?_
      rintro ⟨text, box⟩ ⟨textTwin, boxTwin⟩ ⟨rfl, boxes⟩
      cases boxes with
      | none => exact .bind stored fun a b renames => .pure (before.insert injective text renames)
      | some renames => exact .pure (before.insert injective text renames)
    | _ => cases same
  | accessor span kind key inner =>
    cases twin' with
    | accessor place' kind' key' inner' =>
      obtain ⟨-, -, keys, -⟩ := Member.accessor.inj same
      refine .bind (keyText_mirrors parts pairs fixed keys) ?_
      rintro ⟨text, box⟩ ⟨textTwin, boxTwin⟩ ⟨rfl, -⟩
      exact .pure (before.insert injective text (.unresolvable ..))
    | _ => cases same
  | defaulted =>
    cases twin' with
    | defaulted => exact .pure before
    | _ => cases same

/-- The members of lists mirror each other one after the other. -/
theorem members_mirrors {entries others : Entries String Box} {list twins : List Member}
    (fixed : ∀ name ∈ list.flatMap Member.names, rename name = name)
    (each : List.Forall₂ (fun member twin' =>
      member.bare (file.renamed rename) = twin'.bare twin.source) list twins)
    (before : RenamesEntries rename entries others) :
    Mirrors policy rename (RenamesEntries rename)
      (Evaluation.members { project, policy } next file.scope node entries list)
      (Evaluation.members { project := other, policy } nextTwin twin.scope place others twins) := by
  induction each generalizing entries others with
  | nil => exact .pure before
  | @cons first _ rest _ same _ ih =>
    rw [List.flatMap_cons] at fixed
    have added := member_mirrors parts pairs node place injective numerals
      (fun name listed => fixed name (List.mem_append_left _ listed)) same before
    exact .bind added fun _ _ before =>
      ih (fun name listed => fixed name (List.mem_append_right _ listed)) before

end Members

section Names

variable (calm : policy.isStackSensitive = false)

include calm

/-- A name mirrors itself. -/
theorem name_mirrors (id : Id) :
    Mirrors policy rename (Box.Renames rename) (Evaluation.name next file.scope id node)
      (Evaluation.name nextTwin twin.scope id place) := by
  have bound : (file.scope.binding? id).isSome = (twin.scope.binding? id).isSome := by
    have bindings := congrArg Option.isSome (pairs.rewraps.binding?_bare id)
    rwa [Option.isSome_map, Option.isSome_map] at bindings
  refine .bind (Mirrors.override? calm id.name id.name) ?_
  rintro _ _ ⟨rfl, rfl⟩
  simp only [bound]
  split
  · exact part_mirrors parts (.binding pairs id node place)
  · split
    · exact .pure (.literal ..)
    · exact Mirrors.unknown ..

omit parts in
/-- Expressions that rewrap each other are both imports of everything or neither is. -/
theorem wholeImport?_mirrors {expr twin' : Expr}
    (same : Expr.Matches (file.renamed rename) twin.source expr twin') :
    Mirrors policy rename Eq (Evaluation.wholeImport? file.scope expr)
      (Evaluation.wholeImport? twin.scope twin') := by
  cases same with
  | ident id =>
    refine .bind (Mirrors.override? calm id.name id.name) ?_
    rintro _ _ ⟨rfl, rfl⟩
    have bindings := pairs.rewraps.bindings_rewrap id
    generalize file.scope.binding? id = bound at bindings ⊢
    generalize twin.scope.binding? id = boundTwin at bindings ⊢
    cases bindings with
    | none => exact .pure rfl
    | some same =>
      cases same with
      | imported source imported => cases imported <;> exact .pure rfl
      | _ => exact .pure rfl
  | _ => exact .pure rfl

section Expressions

variable (injective : Function.Injective rename) (rewraps : project.Rewraps rename other)

include injective rewraps

/-- Reading a member under a key that stays mirrors itself, of objects that rewrap each other. -/
theorem read_mirrors {base twin' : Expr}
    (same : base.Rewraps (file.renamed rename) twin.source twin') {key : Primitive}
    (fixed : rename key.toText = key.toText) :
    Mirrors policy rename (Box.Renames rename)
      (Evaluation.read { project, policy } next file.scope base key node)
      (Evaluation.read { project := other, policy } nextTwin twin.scope twin' key place) := by
  refine .bind (wholeImport?_mirrors pairs calm same.matches) ?_
  rintro source _ rfl
  cases source with
  | none =>
    exact .bind (part_mirrors parts (.expr pairs same)) fun a b renames =>
      .pure (renames.read injective fixed node place)
  | some source =>
    simp only [pairs.target?_eq rewraps]
    split
    · exact part_mirrors parts (.exported ..)
    · exact Mirrors.unknown ..

/-- Accesses mirror each other when their objects and keys rewrap each other. -/
theorem access_mirrors {base twin' : Expr}
    (same : base.Rewraps (file.renamed rename) twin.source twin') {key keyTwin : Key}
    (fixed : ∀ name ∈ key.names, rename name = name)
    (keys : key.bare (file.renamed rename) = keyTwin.bare twin.source) :
    Mirrors policy rename (Box.Renames rename)
      (Evaluation.access { project, policy } next file.scope base key node)
      (Evaluation.access { project := other, policy } nextTwin twin.scope twin' keyTwin place) := by
  cases key with
  | computed span value =>
    cases keyTwin with
    | computed place' value' =>
      refine .bind (parts (.expr pairs (Key.computed.inj keys).2)) ?_
      rintro a b ⟨renames, spared⟩
      cases renames.kindred with
      | literal value =>
        exact read_mirrors parts pairs node place calm injective rewraps same (spared value rfl)
      | unresolvable => exact .pure renames
      | _ => exact Mirrors.unknown ..
    | _ => cases keys
  | name text | string text | number text =>
    cases keyTwin <;> cases keys
    exact read_mirrors parts pairs node place calm injective rewraps same
      (fixed _ (List.mem_singleton_self _))
  | bigint | hidden => cases keyTwin <;> cases keys; exact Mirrors.unknown ..

end Expressions

end Names

/-- Conditionals mirror each other when their parts rewrap each other. -/
theorem conditional_mirrors {test testTwin whenTrue trueTwin whenFalse falseTwin : Expr}
    (tests : test.Rewraps (file.renamed rename) twin.source testTwin)
    (yes : whenTrue.Rewraps (file.renamed rename) twin.source trueTwin)
    (no : whenFalse.Rewraps (file.renamed rename) twin.source falseTwin) :
    Mirrors policy rename (Box.Renames rename)
      (Evaluation.conditional { project, policy } next file.scope test whenTrue whenFalse node)
      (Evaluation.conditional { project := other, policy } nextTwin twin.scope testTwin trueTwin
        falseTwin place) := by
  refine .bind (part_mirrors parts (.expr pairs tests)) fun a b renames => ?_
  rw [renames.truthy?]
  split
  · exact part_mirrors parts (.expr pairs yes)
  · exact part_mirrors parts (.expr pairs no)
  · dsimp only
    split
    · exact Mirrors.unknown ..
    · exact .bind (part_mirrors parts (.expr pairs yes)) fun _ _ yes =>
        .bind (part_mirrors parts (.expr pairs no)) fun _ _ no => .pure (yes.conditional no ..)

/-- Logical operators mirror each other when their operands rewrap each other. -/
theorem logical_mirrors {operator : Logical} {left leftTwin right rightTwin : Expr}
    (lefts : left.Rewraps (file.renamed rename) twin.source leftTwin)
    (rights : right.Rewraps (file.renamed rename) twin.source rightTwin) :
    Mirrors policy rename (Box.Renames rename)
      (Evaluation.logical { project, policy } next file.scope operator left right node)
      (Evaluation.logical { project := other, policy } nextTwin twin.scope operator leftTwin rightTwin
        place) := by
  refine .bind (part_mirrors parts (.expr pairs lefts)) fun a b first => ?_
  have decision : Evaluation.shortCircuits? operator a = Evaluation.shortCircuits? operator b := by
    cases operator <;> simp only [Evaluation.shortCircuits?, first.truthy?, first.nullish?]
  rw [decision]
  split
  · exact .pure first
  · exact part_mirrors parts (.expr pairs rights)
  · dsimp only
    split
    · exact Mirrors.unknown ..
    · refine .bind (part_mirrors parts (.expr pairs rights)) fun _ _ second => ?_
      cases operator with
      | and => exact .pure (second.conditional (.literal ..) ..)
      | or | coalesce => exact .pure (first.conditional second ..)

omit parts pairs in
/-- Calls mirror each other whatever they call: under a calm policy no helper is in force. -/
theorem call_mirrors (calm : policy.isStackSensitive = false) (scope scopeTwin : Scope)
    (callee calleeTwin : Option Expr) (arguments argumentsTwin : List Argument) :
    Mirrors policy rename (Box.Renames rename)
      (Evaluation.call next scope callee arguments node)
      (Evaluation.call nextTwin scopeTwin calleeTwin argumentsTwin place) := by
  refine .bind (Mirrors.helper? calm callee calleeTwin) ?_
  rintro _ _ ⟨rfl, rfl⟩
  exact Mirrors.unknown ..

section Steps

variable (calm : policy.isStackSensitive = false) (injective : Function.Injective rename)
  (rewraps : project.Rewraps rename other)

include calm injective rewraps

/-- Expressions without wrappers are reduced to boxes that mirror each other. -/
theorem reduce_mirrors (numerals : ∀ position : Nat, rename (toString position) = toString position)
    {expr expr' : Expr} (fixed : ∀ name ∈ expr.names, rename name = name)
    (same : Expr.Matches (file.renamed rename) twin.source expr expr') :
    Mirrors policy rename (Box.Renames rename)
      (Evaluation.reduce { project, policy } next file.scope expr node)
      (Evaluation.reduce { project := other, policy } nextTwin twin.scope expr' place) := by
  cases same with
  | ident id => exact name_mirrors parts pairs node place calm id
  | literal value =>
    cases found : value.toPrimitive? <;> simp only [Evaluation.reduce, found, Box.ofResult]
    · exact Mirrors.unknown ..
    · exact .pure (.literal ..)
  | template quasis each | tagged quasis each =>
    exact template_mirrors parts pairs node place "" each
  | array each =>
    exact .bind (elements_mirrors parts pairs node place each) fun _ _ items =>
      .pure (.list items ..)
  | object each =>
    have empty : RenamesEntries rename [] [] := rfl
    exact .bind (members_mirrors parts pairs node place injective numerals fixed each empty)
      fun _ _ entries => .pure (.map entries ..)
  | member bases keys | optionalMember bases keys =>
    exact access_mirrors parts pairs node place calm injective rewraps bases fixed keys
  | conditional tests yes no => exact conditional_mirrors parts pairs node place tests yes no
  | logical operator lefts rights => exact logical_mirrors parts pairs node place lefts rights
  | binary operator lefts rights =>
    exact .bind (part_mirrors parts (.expr pairs lefts)) fun _ _ first =>
      .bind (part_mirrors parts (.expr pairs rights)) fun _ _ second =>
        .pure (first.binary second operator node place)
  | unary operator operands =>
    have operand := part_mirrors parts (.expr pairs operands)
    cases operator with
    | void => exact .pure (.literal ..)
    | _ => exact .bind operand fun _ _ renames => .pure (renames.unary _ node place)
  | call => exact call_mirrors node place calm ..
  | optionalCall | assign | update | definition | other => exact Mirrors.unknown ..

/-- Expressions that rewrap each other mirror each other, flags included. -/
theorem expression_mirrors
    (numerals : ∀ position : Nat, rename (toString position) = toString position)
    {expr expr' : Expr} (fixed : ∀ name ∈ expr.unwrap.names, rename name = name)
    (same : expr.Rewraps (file.renamed rename) twin.source expr') :
    Mirrors policy rename (Box.Renames rename)
      (Evaluation.expression { project, policy } next file.scope expr)
      (Evaluation.expression { project := other, policy } nextTwin twin.scope expr') := by
  have ungatedHere : (Setting.mk project policy).policy.gate = none := Policy.gate_eq_none calm
  have ungatedThere : (Setting.mk other policy).policy.gate = none := Policy.gate_eq_none calm
  rw [Evaluation.expression_eq ungatedHere, Evaluation.expression_eq ungatedThere]
  split
  · exact Mirrors.unknown ..
  · have inner := reduce_mirrors parts pairs (file.scope.refer expr.unwrap.span)
      (twin.scope.refer expr'.unwrap.span) calm injective rewraps numerals fixed same.matches
    exact (inner.inside_left calm ..).inside_right calm ..

end Steps

/-! ### What names stand for -/

section Bindings

variable (injective : Function.Injective rename)

include injective

omit parts pairs in
/-- Related boxes have related parts at the end of steps that stay. -/
theorem renames_foldl_read {left right : Box} (renames : left.Renames rename right) (path : List Step)
    (fixed : ∀ step ∈ path, rename step.toKey.toText = step.toKey.toText) :
    (path.foldl (fun box step => box.read step.toKey node) left).Renames rename
      (path.foldl (fun box step => box.read step.toKey place) right) := by
  induction path generalizing left right with
  | nil => exact renames
  | cons step rest ih =>
    have first := renames.read injective (fixed step (List.mem_cons_self ..)) node place
    exact ih first fun step listed => fixed step (List.mem_cons_of_mem _ listed)

/-- Declared names mirror each other when their declarations rewrap each other. -/
theorem declared_mirrors {value twin' : Variable}
    (same : value.bare (file.renamed rename) = twin'.bare twin.source)
    (fixed : ∀ step ∈ value.path, rename step.toKey.toText = step.toKey.toText) :
    Mirrors policy rename (Box.Renames rename)
      (Evaluation.declared next file.scope value node)
      (Evaluation.declared nextTwin twin.scope twin' place) := by
  obtain ⟨init, path, fallback⟩ := value
  obtain ⟨initTwin, pathTwin, fallbackTwin⟩ := twin'
  obtain ⟨inits, rfl, fallbacks⟩ := Variable.mk.inj same
  have whole : Mirrors policy rename (Box.Renames rename)
      (Evaluation.initial next file.scope ⟨init, path, fallback⟩ node)
      (Evaluation.initial nextTwin twin.scope ⟨initTwin, path, fallbackTwin⟩ place) := by
    cases init with
    | none =>
      cases initTwin with
      | none => exact .pure (.literal ..)
      | some => cases inits
    | some init =>
      cases initTwin with
      | none => cases inits
      | some initTwin =>
        exact part_mirrors parts (.expr pairs (Expr.shut_inj (Option.some_inj.1 inits)).2)
  refine .bind whole fun left right renames => ?_
  have read := renames_foldl_read node place injective renames path fixed
  simp only [Variable.part]
  generalize path.foldl _ left = first at read ⊢
  generalize path.foldl _ right = second at read ⊢
  cases fallback with
  | none =>
    cases fallbackTwin with
    | none => exact .pure read
    | some => cases fallbacks
  | some fallback =>
    cases fallbackTwin with
    | none => cases fallbacks
    | some fallbackTwin =>
      -- The default is taken for the literal undefined only, and renaming keys leaves literals
      -- alone.
      cases read.kindred with
      | literal value =>
        cases value with
        | undefined => exact part_mirrors parts (.expr pairs (Option.some_inj.1 fallbacks))
        | _ => exact .pure read
      | _ => exact .pure read

end Bindings

section Imports

variable (rewraps : project.Rewraps rename other)

include rewraps

/-- What is imported from a module mirrors itself. -/
theorem forward_mirrors (source : String) (imported : Imported) :
    Mirrors policy rename (Box.Renames rename)
      (Evaluation.forward { project, policy } next file.scope source imported node)
      (Evaluation.forward { project := other, policy } nextTwin twin.scope source imported
        place) := by
  simp only [Evaluation.forward, pairs.target?_eq rewraps]
  split
  · exact Mirrors.unknown ..
  · split
    · exact part_mirrors parts (.exported ..)
    · exact part_mirrors parts (.whole ..)

/-- A search mirrors itself. -/
theorem search_mirrors (name : String) (sources : List String) :
    Mirrors policy rename (Box.Renames rename)
      (Evaluation.search { project, policy } next file.scope name node sources)
      (Evaluation.search { project := other, policy } nextTwin twin.scope name place sources) := by
  induction sources with
  | nil => exact Mirrors.unknown ..
  | cons source rest ih =>
    simp only [Evaluation.search, pairs.target?_eq rewraps]
    split
    · exact ih
    · refine .bind (part_mirrors parts (.exported ..)) fun a b renames => ?_
      rw [renames.reason?]
      split
      · exact ih
      · exact .pure renames

/-- The binding of a name mirrors itself, if the names of its path stay. -/
theorem binding_mirrors (injective : Function.Injective rename) (keep : Bool) (id : Id)
    (fixed : ∀ name ∈ Task.names { project, policy } (.binding file.scope id node),
      rename name = name) :
    Mirrors policy rename (Box.Renames rename)
      (Evaluation.binding { project, policy } (.remembering keep) next file.scope id node)
      (Evaluation.binding { project := other, policy } (.remembering keep) nextTwin twin.scope id
        place) := by
  have bindings := pairs.rewraps.bindings_rewrap id
  unfold Evaluation.binding
  rw [← pairs.rewraps.isReassigned_eq, ← pairs.rewraps.scope_file_eq]
  simp only [Task.names] at fixed
  generalize file.scope.binding? id = bound at bindings fixed ⊢
  generalize twin.scope.binding? id = boundTwin at bindings ⊢
  cases bindings with
  | none => exact Mirrors.unknown ..
  | some same =>
    cases same with
    | imported source imported =>
      exact forward_mirrors parts pairs node place rewraps source imported
    | «sealed» => exact Mirrors.unknown ..
    | @«variable» value _ bare =>
      dsimp only
      split
      · exact Mirrors.unknown ..
      · have paths : ∀ step ∈ value.path, rename step.toKey.toText = step.toKey.toText :=
          fun step listed => fixed _ (List.mem_map.2 ⟨step, listed, rfl⟩)
        have stated := declared_mirrors parts pairs node place injective bare paths
        exact stated.remembering keep _ node place

omit pairs in
/-- An export of a module mirrors itself. -/
theorem exported_mirrors (keep : Bool) (path : Path) (name : String) :
    Mirrors policy rename (Box.Renames rename)
      (Evaluation.exported { project, policy } (.remembering keep) next path name node)
      (Evaluation.exported { project := other, policy } (.remembering keep) nextTwin path name
        place) := by
  cases found : project.file? path with
  | none =>
    -- Without a file neither project exports anything.
    have empty : project.scope path = .empty path := by rw [Project.scope, found]
    have emptyTwin : other.scope path = .empty path := by
      rw [Project.scope, rewraps.file?_eq_none found]
    simp only [Evaluation.exported, empty, emptyTwin, Scope.empty, Scope.export?, Entries.get?,
      Evaluation.search]
    split
    · exact (Mirrors.unknown ..).remembering keep _ node place
    · exact (Mirrors.unknown ..).remembering keep _ node place
  | some file =>
    obtain ⟨twin, foundTwin, pairs⟩ := rewraps.exists_pairs found
    have held : project.scope path = file.scope := by rw [Project.scope, found]
    have heldTwin : other.scope path = twin.scope := by rw [Project.scope, foundTwin]
    have exports := pairs.rewraps.export?_bare name
    have search := search_mirrors parts pairs node place rewraps name file.scope.stars
    rw [pairs.rewraps.stars_eq] at search
    unfold Evaluation.exported
    simp only [held, heldTwin, ← pairs.rewraps.scope_file_eq, ← pairs.rewraps.stars_eq] at search ⊢
    apply Mirrors.remembering
    generalize file.scope.export? name = stated at exports ⊢
    generalize twin.scope.export? name = statedTwin at exports ⊢
    cases stated with
    | none =>
      cases statedTwin with
      | some => cases exports
      | none =>
        dsimp only
        split
        · exact Mirrors.unknown ..
        · exact search
    | some stated =>
      cases statedTwin with
      | none => cases exports
      | some statedTwin =>
        -- The exports are of one sort, except that a wrapped name is exported by its value. Then
        -- the two sides meet again at the binding of the name.
        have same := Option.some_inj.1 exports
        cases stated with
        | binding id =>
          cases statedTwin with
          | binding => cases same; exact part_mirrors parts (.binding pairs id node place)
          | forward => cases same
          | value expr =>
            obtain ⟨plain, span, named⟩ := Export.unwrap_of_bare_value same.symm
            exact part_mirrors parts (.stated pairs plain named node)
        | forward source imported =>
          cases statedTwin with
          | binding => cases same
          | forward =>
            cases same
            exact forward_mirrors parts pairs node place rewraps source imported
          | value expr => exact (Export.bare_value_ne_forward _ _ _ same.symm).elim
        | value expr =>
          cases statedTwin with
          | binding id =>
            obtain ⟨plain, span, named⟩ := Export.unwrap_of_bare_value same
            exact part_mirrors parts (.named pairs plain named place)
          | forward => exact (Export.bare_value_ne_forward _ _ _ same).elim
          | value expr' =>
            exact part_mirrors parts (.expr pairs (Export.rewraps_of_bare_value same))

omit rewraps pairs in
/-- All exports of a module mirror themselves, if their names stay. -/
theorem exports_mirrors (path : Path) (names : List String)
    (fixed : ∀ name ∈ names, rename name = name) :
    Mirrors policy rename (RenamesEntries rename) (Evaluation.exports next path node names)
      (Evaluation.exports nextTwin path place names) := by
  induction names with
  | nil =>
    have empty : RenamesEntries rename [] [] := rfl
    exact .pure empty
  | cons name rest ih =>
    have others := ih fun name listed => fixed name (List.mem_cons_of_mem _ listed)
    exact .bind (part_mirrors parts (.exported path name node place)) fun _ _ value =>
      .bind others fun _ _ others => .pure (.cons (fixed name (List.mem_cons_self ..)) value others)

omit pairs in
/-- A module as a whole mirrors itself, if the names of its exports stay. -/
theorem whole_mirrors (keep : Bool) (path : Path)
    (fixed : ∀ name ∈ Task.names { project, policy } (.whole path node), rename name = name) :
    Mirrors policy rename (Box.Renames rename)
      (Evaluation.whole { project, policy } (.remembering keep) next path node)
      (Evaluation.whole { project := other, policy } (.remembering keep) nextTwin path place) := by
  have same : (project.scope path).file = (other.scope path).file ∧
      Entries.keys (project.scope path).exports = Entries.keys (other.scope path).exports := by
    cases found : project.file? path with
    | none => simp only [Project.scope, found, rewraps.file?_eq_none found, and_self]
    | some file =>
      obtain ⟨twin, foundTwin, pairs⟩ := rewraps.exists_pairs found
      simp only [Project.scope, found, foundTwin]
      exact ⟨pairs.rewraps.scope_file_eq, pairs.rewraps.keys_exports_eq⟩
  unfold Evaluation.whole
  simp only [← same.1, ← same.2]
  apply Mirrors.remembering
  exact .bind (exports_mirrors parts node place _ _ fixed) fun _ _ entries =>
    .pure (.map entries ..)

end Imports

end

/-! ### A name on one side -/

section Named

variable {scope : Scope} {id : Id} (plain : builtin? id.name = none)

include plain

/-- Outside of overrides, a name that has no value without a binding is asked for by its binding. -/
theorem name_of_free (next : Task → Eval Box) (node : Reference) {run : Run}
    (free : run.overrides = []) :
    Evaluation.name next scope id node run =
      (if (scope.binding? id).isSome then next (.binding scope id node)
        else pure (.unknown .unbound node)) run := by
  rw [Evaluation.name, Eval.bind_apply, Eval.override?_of_free id.name free]
  simp only [plain]
  rfl

variable (calm : policy.isStackSensitive = false) (evaluates : policy.flags.skipEvaluate = false)
  {expr : Expr} {span : Span} (named : expr.unwrap = .ident span id)

include calm evaluates named

omit plain in
/-- A name without a value of its own is looked up, under any policy that evaluates. -/
theorem expression_of_named (project : Project) (next : Task → Eval Box) :
    Evaluation.expression { project, policy } next scope expr =
      Eval.inside policy (.ident span id) (scope.refer span)
        (Evaluation.name next scope id (scope.refer span)) := by
  have ungatedHere : (Setting.mk project policy).policy.gate = none := Policy.gate_eq_none calm
  rw [Evaluation.expression_eq ungatedHere, named]
  exact if_neg (evaluates ▸ Bool.false_ne_true)

/-- What mirrors the binding of a name, or its absence, mirrors the name. -/
theorem mirrors_named_right {left : Eval Box} {next : Task → Eval Box}
    (bound : (scope.binding? id).isSome → ∀ node,
      Mirrors policy rename (Box.Renames rename) left (next (.binding scope id node)))
    (unbound : scope.binding? id = none → ∀ node,
      Mirrors policy rename (Box.Renames rename) left (pure (.unknown .unbound node))) :
    Mirrors policy rename (Box.Renames rename) left
      (Evaluation.expression { project, policy } next scope expr) := by
  rw [expression_of_named calm evaluates named]
  apply Mirrors.inside_right calm
  apply Mirrors.congr calm (fun _ _ => rfl) fun _ free => name_of_free plain next _ free
  split
  · next found => exact bound found _
  · next missing => exact unbound (Option.not_isSome_iff_eq_none.1 missing) _

/-- A name mirrors what its binding mirrors, or its absence. -/
theorem mirrors_named_left {right : Eval Box} {next : Task → Eval Box}
    (bound : (scope.binding? id).isSome → ∀ node,
      Mirrors policy rename (Box.Renames rename) (next (.binding scope id node)) right)
    (unbound : scope.binding? id = none → ∀ node,
      Mirrors policy rename (Box.Renames rename) (pure (.unknown .unbound node)) right) :
    Mirrors policy rename (Box.Renames rename)
      (Evaluation.expression { project, policy } next scope expr) right := by
  rw [expression_of_named calm evaluates named]
  apply Mirrors.inside_left calm
  apply Mirrors.congr calm (fun _ free => name_of_free plain next _ free) fun _ _ => rfl
  split
  · next found => exact bound found _
  · next missing => exact unbound (Option.not_isSome_iff_eq_none.1 missing) _

end Named

/-! ### Whole evaluations -/

/-- A name without a binding comes to nothing that is known. -/
theorem binding_of_unbound {setting : Setting} {guard : Guard} {next : Task → Eval Box}
    {scope : Scope} {id : Id} (unbound : scope.binding? id = none) (node : Reference) :
    Evaluation.binding setting guard next scope id node = pure (.unknown .unbound node) := by
  rw [Evaluation.binding, unbound]

/-- A step that avoids the texts that are renamed spares them. -/
theorem avoiding_mirrors {keep : Bool} {fuel : Nat} {task : Task} {right : Eval Box}
    (body : (∀ name ∈ task.names { project, policy }, rename name = name) →
      Mirrors policy rename (Box.Renames rename)
        (Evaluation.step { project, policy } (.remembering keep)
          (Evaluation.avoiding { project, policy } (.remembering keep)
            (fun text => rename text ≠ text) fuel) task) right) :
    Mirrors policy rename (Box.Spares rename)
      (Evaluation.avoiding { project, policy } (.remembering keep) (fun text => rename text ≠ text)
        (fuel + 1) task) right :=
  .of_ends fun corresponds ended => by
    obtain ⟨stepped, names, values⟩ := Evaluation.step_of_avoiding ended
    have fixed : ∀ name ∈ task.names { project, policy }, rename name = name := by
      simpa using names
    obtain ⟨b, end', twinEnds, after, renames⟩ := (body fixed).elim corresponds stepped
    exact ⟨b, end', twinEnds, after, renames, by simpa using values⟩

end Rewrapping

section

variable (calm : policy.isStackSensitive = false) (evaluates : policy.flags.skipEvaluate = false)
  (injective : Function.Injective rename)
  (numerals : ∀ position : Nat, rename (toString position) = toString position)
  (rewraps : project.Rewraps rename other)

include calm evaluates injective numerals rewraps

/-- An evaluation that avoids the texts that are renamed is mirrored by that of the other project. -/
theorem Evaluation.run_rewraps (keep : Bool) {fuel more : Nat} (enough : 2 * fuel ≤ more)
    {task twin : Task} (tasks : task.Rewraps rename project other twin) :
    Mirrors policy rename (Box.Spares rename)
      (avoiding { project, policy } (.remembering keep) (fun text => rename text ≠ text) fuel task)
      (run { project := other, policy } (.remembering keep) more twin) := by
  -- On the fuel of the first evaluation. A step of it takes two from the fuel of the second.
  induction fuel generalizing task twin more with
  | zero => exact .of_failure _
  | succ fuel ih =>
    obtain ⟨less, rfl⟩ : ∃ less, more = less + 1 := ⟨more - 1, by omega⟩
    have parts {part partTwin : Task} (tasks : part.Rewraps rename project other partTwin) :=
      ih (show 2 * fuel ≤ less by omega) tasks
    apply Rewrapping.avoiding_mirrors
    intro fixed
    cases tasks with
    | expr pairs exprs =>
      exact Rewrapping.expression_mirrors parts pairs calm injective rewraps numerals fixed exprs
    | binding pairs id node place =>
      exact Rewrapping.binding_mirrors parts pairs node place rewraps injective keep id fixed
    | exported path name node place =>
      exact Rewrapping.exported_mirrors parts node place rewraps keep path name
    | whole path node place =>
      exact Rewrapping.whole_mirrors parts node place rewraps keep path fixed
    | @stated _ _ pairs id plain _ _ named node =>
      apply Rewrapping.mirrors_named_right plain calm evaluates named
      · intro _ place
        -- The second evaluation takes a step more, which leads to the binding of the name.
        obtain ⟨least, rfl⟩ : ∃ least, less = least + 1 := ⟨less - 1, by omega⟩
        have parts {part partTwin : Task} (tasks : part.Rewraps rename project other partTwin) :=
          ih (show 2 * fuel ≤ least by omega) tasks
        exact Rewrapping.binding_mirrors parts pairs node place rewraps injective keep id fixed
      · intro unbound place
        have bindings := pairs.rewraps.binding?_bare id
        rw [unbound, Option.map_none, Option.map_eq_none_iff] at bindings
        rw [step, Rewrapping.binding_of_unbound bindings]
        exact Mirrors.unknown ..
    | @named _ _ pairs id plain _ _ named place =>
      apply Rewrapping.mirrors_named_left plain calm evaluates named
      · intro _ node
        have parts {part partTwin : Task} (tasks : part.Rewraps rename project other partTwin) :=
          ih (show 2 * fuel ≤ less + 1 by omega) tasks
        exact Rewrapping.part_mirrors parts (.binding pairs id node place)
      · intro unbound node
        have bindings := (pairs.rewraps.binding?_bare id).symm
        rw [unbound, Option.map_none, Option.map_eq_none_iff] at bindings
        rw [run, step, Rewrapping.binding_of_unbound bindings]
        exact Mirrors.unknown ..

end

end Glean
