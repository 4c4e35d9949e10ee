import Glean.Proofs.Imports

/-!
# Aliases

A specifier that names no place is resolved through the first alias whose prefix it starts with:
what follows the prefix is joined to the alias's directory, and the place is where the components of
both lead. When what follows starts with a slash, joining forgets the directory, and the place is
wherever the rest leads from the root (`Project.resolve_aliased`).
-/

namespace Glean

namespace Path

/-- A text without a slash in front has no root among its components. -/
theorem filter_root_componentsOf {text : String} (relative : text.startsWith "/" = false) :
    (componentsOf text.toList).filter (· ≠ .root) = componentsOf text.toList := by
  have start : text.toList.head? ≠ some '/' := by
    intro slash
    rw [(startsWith_slash_iff text).2 slash] at relative
    cases relative
  have inner : ∀ component ∈ steps text.toList, component ≠ .root := by
    intro component listed
    rw [steps, if_neg start, List.nil_append] at listed
    obtain ⟨_, _, read⟩ := List.mem_filterMap.1 listed
    exact (component?_eq_some read).1
  apply List.filter_eq_self.2
  intro component listed
  apply decide_eq_true
  by_cases current : component = .current
  · rw [current]
    intro same
    cases same
  · have kept : component ∈ steps text.toList := by
      rw [← filter_componentsOf]
      exact List.mem_filter.2 ⟨listed, decide_eq_true current⟩
    exact inner component kept

/-- The components of a directory followed by those of a text that is joined to it; a slash in front
of the text leaves nothing of the directory. -/
def joined (directory : Path) (rest : String) : List Component :=
  (if rest.startsWith "/" then [] else directory.components) ++ componentsOf rest.toList

/-- The steps of a joined path are the joined components without the current directory. -/
theorem steps_joined (directory : Path) (rest : String) :
    steps (directory.join rest).text.toList = (directory.joined rest).filter (· ≠ .current) := by
  rw [joined, List.filter_append, filter_componentsOf]
  by_cases absolute : rest.startsWith "/" = true
  · have replaced : directory.join rest = ⟨rest⟩ := by rw [join, if_pos absolute]
    rw [replaced, if_pos absolute]
    rfl
  · rw [steps_join directory absolute, if_neg absolute, components, filter_componentsOf]

/-- The components of a directory and of a rest joined to it are proper. -/
theorem isProper_of_mem_joined {directory : Path} {rest : String} {component : Component}
    (listed : component ∈ directory.joined rest) : component.IsProper := by
  rcases List.mem_append.1 listed with held | held
  · split at held
    · cases held
    · exact (areProper_componentsOf _).proper component held
  · exact (areProper_componentsOf _).proper component held

section Written

variable {components : List Component} {text : List Char}
  (same : steps text = components.filter (· ≠ .current))
include same

/-- Of the components of a text, two climbs in a row come to nothing when they are resolved. -/
theorem foldl_resolve :
    components.foldl resolve [] =
      (Course.along components).paired (components.contains .root) :=
  Course.foldl_of_steps resolve Course.paired
    (fun _ course _ => Course.resolve_paired course) (fun _ => rfl) rfl rfl same

/-- By the text alone they lead where their course does. -/
theorem foldl_settle :
    components.foldl settle [] =
      (Course.along components).lexical (components.contains .root) :=
  Course.foldl_of_steps settle Course.lexical
    (fun _ course _ => Course.settle_lexical course) (fun _ => rfl) rfl rfl same

end Written

end Path

namespace Project

open Glean.Path

/-- It can be decided whether a specifier names a place. -/
instance (specifier : String) : Decidable (NamesPlace specifier) :=
  inferInstanceAs (Decidable (_ ∨ _ ∨ _))

/-- A place is looked for at the paths for the components that lead to it. -/
theorem probe?_normalize (project : Project) {place : Path} {components : List Component}
    (same : steps place.text.toList = components.filter (· ≠ .current))
    (proper : ∀ component ∈ components, component.IsProper) :
    project.probe? place.normalize =
      (alternatives (components.foldl Path.resolve [])).find? fun path =>
        Entries.contains project.files path := by
  have idle (done : List Component) : Path.resolve done .current = done := rfl
  have reached : place.normalize = ofComponents (components.foldl Path.resolve []) := by
    rw [Path.normalize, ← foldl_filter_current idle, Path.components, filter_componentsOf, same,
      foldl_filter_current idle]
  have are : AreProper (components.foldl Path.resolve []) := by
    rw [foldl_resolve same]
    exact Course.areProper_paired (Course.isProper_along proper)
  rw [reached, probe?, candidates_ofComponents are]

section Aliased

variable (project : Project) (importer : Path) {specifier : String}
  (other : ¬NamesPlace specifier)
include other

/-- A specifier that names no place is left to the aliases. -/
theorem place?_of_other :
    project.place? importer specifier =
      (project.aliases.find? fun entry => specifier.startsWith entry.1).map fun entry =>
        entry.2.join (String.ofList (specifier.toList.drop entry.1.length)) := by
  have here : specifier.startsWith "./" = false :=
    Bool.eq_false_iff.2 fun written => other (.inl written)
  have above : specifier.startsWith "../" = false :=
    Bool.eq_false_iff.2 fun written => other (.inr (.inl written))
  have absolute : specifier.startsWith "/" = false :=
    Bool.eq_false_iff.2 fun written => other (.inr (.inr written))
  rw [place?, here, above, absolute]
  change (project.aliases.find? fun entry => specifier.startsWith entry.1).bind _ = _
  cases project.aliases.find? fun entry => specifier.startsWith entry.1 <;> rfl

/-- The first alias whose prefix the specifier starts with gives the place. -/
theorem place?_of_alias {before after : Entries String Path} {start rest : String}
    {directory : Path} (listed : project.aliases = before ++ (start, directory) :: after)
    (first : ∀ entry ∈ before, specifier.startsWith entry.1 = false)
    (split : specifier = start ++ rest) :
    project.place? importer specifier = some (directory.join rest) := by
  have starts : specifier.startsWith start = true := by
    rw [String.startsWith_string_iff, split, String.toList_append]
    exact List.prefix_append ..
  have skipped : (before.find? fun entry => specifier.startsWith entry.1) = none :=
    List.find?_eq_none.2 fun entry held => Bool.eq_false_iff.1 (first entry held)
  have found : (project.aliases.find? fun entry => specifier.startsWith entry.1) =
      some (start, directory) := by
    rw [listed, List.find?_append, skipped, Option.none_or]
    exact List.find?_cons_of_pos starts
  have left : specifier.toList.drop start.length = rest.toList := by
    rw [split, String.toList_append, ← String.length_toList, List.drop_left]
  rw [place?_of_other project importer other, found, Option.map_some, left, String.ofList_toList]

/-- The place is looked for where the directory of the alias and the rest lead. -/
theorem resolve?_of_alias {before after : Entries String Path} {start rest : String}
    {directory : Path} (listed : project.aliases = before ++ (start, directory) :: after)
    (first : ∀ entry ∈ before, specifier.startsWith entry.1 = false)
    (split : specifier = start ++ rest) :
    project.resolve? importer specifier =
      (alternatives ((directory.joined rest).foldl Path.resolve [])).find? fun path =>
        Entries.contains project.files path := by
  rw [resolve?, place?_of_alias project importer other listed first split]
  exact probe?_normalize project (steps_joined directory rest) fun _ => isProper_of_mem_joined

end Aliased

/-- A specifier that names no place resolves to nothing when no alias's prefix starts it. Otherwise
the first such alias decides. When no slash follows the prefix, the specifier resolves to the first
path that is present among those for the directory's components with those of the rest after them,
once `.` and `..` are resolved; this is the target by the text alone unless `..` climbs out of it
twice or above the root. When a slash follows, the directory is forgotten and the components are
those of the rest alone. -/
theorem resolve_aliased (project : Project) (importer : Path) (specifier : String)
    (other : ¬NamesPlace specifier) :
    ((∀ entry ∈ project.aliases, specifier.startsWith entry.1 = false) →
      project.resolve? importer specifier = none) ∧
    ∀ (before after : Entries String Path) (start rest : String) (directory : Path),
      project.aliases = before ++ (start, directory) :: after →
      (∀ entry ∈ before, specifier.startsWith entry.1 = false) →
      specifier = start ++ rest →
      let components := directory.components ++ (componentsOf rest.toList).filter (· ≠ .root)
      let first (components : List Component) : Option Path :=
        (alternatives components).find? fun path => Entries.contains project.files path
      (rest.startsWith "/" = false →
        project.resolve? importer specifier = first (components.foldl Path.resolve []) ∧
        ((Course.along components).isDirect (components.contains .root) = true ↔
          components.foldl Path.resolve [] = components.foldl settle [])) ∧
      (rest.startsWith "/" = true →
        project.resolve? importer specifier =
          first ((componentsOf rest.toList).foldl Path.resolve [])) := by
  refine ⟨fun nowhere => ?_, fun before after start rest directory listed earlier split => ?_⟩
  · have nothing : (project.aliases.find? fun entry => specifier.startsWith entry.1) = none :=
      List.find?_eq_none.2 fun entry held => Bool.eq_false_iff.1 (nowhere entry held)
    rw [resolve?, place?_of_other project importer other, nothing]
    rfl
  · intro components first
    have resolved : project.resolve? importer specifier =
        first ((directory.joined rest).foldl Path.resolve []) :=
      resolve?_of_alias project importer other listed earlier split
    constructor
    · intro relative
      have continued : directory.joined rest = components := by
        rw [joined, relative, if_neg Bool.false_ne_true]
        exact congrArg (directory.components ++ ·) (filter_root_componentsOf relative).symm
      have same := steps_joined directory rest
      rw [continued] at resolved same
      refine ⟨resolved, ?_⟩
      rw [foldl_resolve same, foldl_settle same]
      exact (Course.paired_eq_lexical_iff _).symm
    · intro absolute
      have replaced : directory.joined rest = componentsOf rest.toList := by
        rw [joined, if_pos absolute, List.nil_append]
      rwa [replaced] at resolved

/-- `@/theme/tokens` is `/src/theme/tokens.ts` when `@/` stands for `/src`. -/
theorem resolve_aliased_theme :
    let project := (Project.insert {} (emptyFile "/src/theme/tokens.ts")).withAlias "@/" ⟨"/src"⟩
    let components := componentsOf "/src".toList ++
      (componentsOf "theme/tokens".toList).filter (· ≠ .root)
    ¬NamesPlace "@/theme/tokens" ∧ project.aliases = [("@/", ⟨"/src"⟩)] ∧
      "@/theme/tokens" = "@/" ++ "theme/tokens" ∧ "theme/tokens".startsWith "/" = false ∧
      components.foldl Path.resolve [] = [.root, .name "src", .name "theme", .name "tokens"] ∧
      project.resolve? ⟨"/src/app.tsx"⟩ "@/theme/tokens" = some ⟨"/src/theme/tokens.ts"⟩ := by
  intro project components
  have other : ¬NamesPlace "@/theme/tokens" := by decide +kernel
  have relative : "theme/tokens".startsWith "/" = false := by decide +kernel
  have aliased := (resolve_aliased project ⟨"/src/app.tsx"⟩ "@/theme/tokens" other).2 [] [] "@/"
    "theme/tokens" ⟨"/src"⟩ (by decide +kernel) nofun (by decide +kernel)
  have resolved := (aliased.1 relative).1
  exact ⟨other, by decide +kernel, by decide +kernel, relative, by decide +kernel,
    resolved.trans (by decide +kernel)⟩

/-- With `@` for `/src`, `@/a` should be `/src/a.ts`, yet it is `/a.ts`, a file elsewhere. -/
theorem not_resolve_aliased :
    let project := ((Project.insert {} (emptyFile "/src/a.ts")).insert
      (emptyFile "/a.ts")).withAlias "@" ⟨"/src"⟩
    let components := componentsOf "/src".toList ++ (componentsOf "/a".toList).filter (· ≠ .root)
    ¬NamesPlace "@/a" ∧ project.aliases = [("@", ⟨"/src"⟩)] ∧ "@/a" = "@" ++ "/a" ∧
      components = [.root, .name "src", .name "a"] ∧
      project.resolve? ⟨"/src/app.tsx"⟩ "@/a" = some ⟨"/a.ts"⟩ ∧
      (alternatives (components.foldl Path.resolve [])).find?
        (Entries.contains project.files) = some ⟨"/src/a.ts"⟩ := by
  have other : ¬NamesPlace "@/a" := by decide +kernel
  exact ⟨other, by decide +kernel, by decide +kernel, by decide +kernel, by decide +kernel,
    by decide +kernel⟩

end Project

end Glean
