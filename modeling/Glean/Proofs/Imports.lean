import Glean.Project
import Glean.Proofs.Components

/-!
# Targets of imports

A specifier that names a place is resolved against the directory of the importing file. By the text
alone, `.` is dropped and `..` takes the name before it away; at the root it stays, and in front of
a relative path it is kept (`Path.settle`). Where that leads is a number of climbs above the start
and names below (`Path.Course`).

The paths that are looked for come out otherwise when there are several climbs, since a `..` that
was kept is taken away by the next one, also at the root: of the climbs only their parity is left.
So a specifier resolves to its target exactly when the target of a relative path has at most one
climb and that of an absolute path climbs above the root an even number of times
(`Project.resolve_settles`).
-/

namespace Glean

namespace Path

/-- Adds one component by the text alone: `.` is dropped, a name is taken away by `..`, which stays
at the root and is kept otherwise. -/
def settle (done : List Component) : Component → List Component
  | .current => done
  | .parent =>
    match done.getLast? with
    | some (.name _) => done.dropLast
    | some .root => done
    | _ => done ++ [.parent]
  | component => done ++ [component]

/-- The components of the importing file's directory, none for an absolute specifier, followed by
those of the specifier. -/
def named (importer : Path) (specifier : String) : List Component :=
  (if specifier.startsWith "/" then [] else importer.components.dropLast) ++
    componentsOf specifier.toList

/-- The paths at which a target is looked for, in order: the target, the target with an extension
appended, and index files in the target. -/
def alternatives (target : List Component) : List Path :=
  let place := ofComponents target
  place ::
    ([".ts", ".tsx", ".js", ".jsx", ".mjs"].map (fun ending => ⟨place.text ++ ending⟩) ++
      ["index.ts", "index.tsx", "index.js", "index.jsx", "index.mjs"].map fun file =>
        ofComponents (target ++ [.name file]))

/-- A `.` makes no difference where each is dropped. -/
theorem foldl_filter_current {β : Type} {next : β → Component → β}
    (idle : ∀ done, next done .current = done) (components : List Component) (start : β) :
    (components.filter (· ≠ .current)).foldl next start = components.foldl next start := by
  rw [List.foldl_filter]
  congr 1
  funext done component
  by_cases current : component = .current
  · simp [current, idle]
  · simp [current]

/-- Where steps lead: how far above their start, and by which names down from there. -/
structure Course where
  /-- How often the start is left for the directory around it. -/
  climbs : Nat := 0
  /-- The names on the way down. -/
  names : List String := []

namespace Course

/-- One more step. -/
def step (course : Course) : Component → Course
  | .name text => { course with names := course.names ++ [text] }
  | .parent =>
    if course.names = [] then { course with climbs := course.climbs + 1 }
    else { course with names := course.names.dropLast }
  | .root | .current => course

/-- Where steps lead, one after the other. -/
def along (steps : List Component) : Course := steps.foldl step {}

/-- The components of a course from the root, which is not left by a climb, or from elsewhere. -/
def lexical (rooted : Bool) (course : Course) : List Component :=
  (if rooted then [.root] else List.replicate course.climbs .parent) ++ course.names.map .name

/-- The components of a course when two climbs in a row come to nothing. -/
def paired (rooted : Bool) (course : Course) : List Component :=
  (if rooted then [.root] else []) ++
    (List.replicate (course.climbs % 2) .parent ++ course.names.map .name)

variable {rooted : Bool}

/-- A parent step takes back the last name. -/
theorem step_concat (climbs : Nat) (before : List String) (last : String) :
    step ⟨climbs, before ++ [last]⟩ .parent = ⟨climbs, before⟩ := by
  simp [step]

/-- Settling a component goes on with the course in the lexical way. -/
theorem settle_lexical (course : Course) {component : Component} (inner : component ≠ .root) :
    settle (course.lexical rooted) component = (course.step component).lexical rooted := by
  obtain ⟨climbs, names⟩ := course
  cases component with
  | root => exact absurd rfl inner
  | current => rfl
  | name text => simp [settle, step, lexical]
  | parent =>
    rcases List.eq_nil_or_concat' names with rfl | ⟨before, last, rfl⟩
    · cases rooted with
      | true => rfl
      | false =>
        cases climbs with
        | zero => rfl
        | succ climbs => simp [settle, step, lexical, List.replicate_succ']
    · rw [step_concat]
      simp [settle, lexical, ← List.append_assoc]

/-- Resolving a component goes on with the course in the way where parents pair up. -/
theorem resolve_paired (course : Course) {component : Component} (inner : component ≠ .root) :
    resolve (course.paired rooted) component = (course.step component).paired rooted := by
  obtain ⟨climbs, names⟩ := course
  cases component with
  | root => exact absurd rfl inner
  | current => rfl
  | name text => simp [resolve, step, paired]
  | parent =>
    rcases List.eq_nil_or_concat' names with rfl | ⟨before, last, rfl⟩
    · rcases Nat.mod_two_eq_zero_or_one climbs with even | odd
      · have next : (climbs + 1) % 2 = 1 := by omega
        cases rooted <;> simp [resolve, step, paired, even, next]
      · have next : (climbs + 1) % 2 = 0 := by omega
        cases rooted <;> simp [resolve, step, paired, odd, next]
    · rw [step_concat]
      simp [resolve, paired, ← List.append_assoc]

/-- Whether nothing is lost when two climbs in a row come to nothing. -/
def isDirect (rooted : Bool) (course : Course) : Bool :=
  if rooted then course.climbs % 2 = 0 else course.climbs ≤ 1

/-- Both ways agree on a course exactly when it is direct. -/
theorem paired_eq_lexical_iff (course : Course) :
    course.paired rooted = course.lexical rooted ↔ course.isDirect rooted = true := by
  unfold isDirect paired lexical
  cases rooted with
  | true => simp
  | false =>
    have small : course.climbs % 2 = course.climbs ↔ course.climbs ≤ 1 := by omega
    simp [small]

/-- The names of a course can stand in a path. -/
def IsProper (course : Course) : Prop := ∀ text ∈ course.names, (Component.name text).IsProper

/-- A step by a proper component leaves a course proper. -/
theorem IsProper.step {course : Course} (proper : course.IsProper) {component : Component}
    (added : component.IsProper) : (course.step component).IsProper := by
  cases component with
  | root | current => exact proper
  | name text =>
    intro other listed
    rcases List.mem_append.1 listed with held | held
    · exact proper other held
    · exact List.mem_singleton.1 held ▸ added
  | parent =>
    intro text listed
    by_cases none : course.names = []
    · simp [Course.step, none] at listed
    · simp only [Course.step, none, if_false] at listed
      exact proper text ((List.dropLast_sublist _).subset listed)

/-- Steps by proper components make a proper course. -/
theorem isProper_along {steps : List Component} (proper : ∀ step ∈ steps, step.IsProper) :
    (along steps).IsProper := by
  have kept (course : Course) (start : course.IsProper) : (steps.foldl step course).IsProper := by
    induction steps generalizing course with
    | nil => exact start
    | cons first rest ih =>
      have next := start.step (proper first (List.mem_cons_self ..))
      exact ih (fun component listed => proper component (List.mem_cons_of_mem _ listed)) _ next
  exact kept {} nofun

/-- The components of a course can stand in a path. -/
theorem areProper_paired {course : Course} (proper : course.IsProper) :
    AreProper (course.paired rooted) := by
  have below : ∀ component ∈ List.replicate (course.climbs % 2) Component.parent ++
      course.names.map .name, component.IsProper ∧ component ≠ .root := by
    intro component listed
    rcases List.mem_append.1 listed with held | held
    · rw [List.eq_of_mem_replicate held]
      exact ⟨trivial, nofun⟩
    · obtain ⟨text, among, rfl⟩ := List.mem_map.1 held
      exact ⟨proper text among, nofun⟩
  unfold paired
  cases rooted with
  | true =>
    constructor
    · intro component listed
      rcases List.mem_cons.1 listed with rfl | held
      · trivial
      · exact (below component held).1
    · exact fun component listed => (below component listed).2
  | false =>
    constructor
    · exact fun component listed => (below component listed).1
    · exact fun component listed => (below component (List.mem_of_mem_tail listed)).2

section Following

variable (next : List Component → Component → List Component)
  (lay : Bool → Course → List Component)
  (each : ∀ rooted course component, component ≠ .root →
    next (lay rooted course) component = lay rooted (course.step component))
include each

/-- Components that are added one by one are those of a course that takes the steps one by one. -/
theorem foldl_lay {steps : List Component} (inner : ∀ step ∈ steps, step ≠ .root)
    (course : Course) :
    steps.foldl next (lay rooted course) = lay rooted (steps.foldl step course) := by
  induction steps generalizing course with
  | nil => rfl
  | cons first rest ih =>
    rw [List.foldl_cons, List.foldl_cons, each _ _ _ (inner first (List.mem_cons_self ..))]
    exact ih (fun component listed => inner component (List.mem_cons_of_mem _ listed)) _

/-- So it is for components that are the steps of a text, from the start that they have. -/
theorem foldl_of_steps (idle : ∀ done, next done .current = done) (elsewhere : lay false {} = [])
    (root : next [] .root = lay true {}) {components : List Component} {text : List Char}
    (same : steps text = components.filter (· ≠ .current)) :
    components.foldl next [] = lay (components.contains .root) (along components) := by
  have inner : ∀ component ∈ (pieces text).filterMap component?, component ≠ .root := by
    intro component listed
    obtain ⟨_, _, read⟩ := List.mem_filterMap.1 listed
    exact (component?_eq_some read).1
  have rooted : components.contains .root = (steps text).contains .root := by
    rw [same, Bool.eq_iff_iff, List.contains_iff_mem, List.contains_iff_mem, List.mem_filter]
    exact (and_iff_left rfl).symm
  have taken : along components = along (steps text) := by
    rw [same]
    exact (foldl_filter_current (fun _ => rfl) components ({} : Course)).symm
  rw [← foldl_filter_current idle, ← same, rooted, taken]
  unfold steps along
  split
  · rw [List.singleton_append, List.foldl_cons, List.foldl_cons, root,
      foldl_lay next lay each inner, List.contains_cons, beq_self_eq_true, Bool.true_or]
    rfl
  · have none : ((pieces text).filterMap component?).contains .root = false := by
      rw [Bool.eq_false_iff, ne_eq, List.contains_iff_mem]
      exact fun listed => inner _ listed rfl
    rw [List.nil_append, ← elsewhere, foldl_lay next lay each inner, none]

end Following

end Course

/-- The directory of a file has the components of the file except for the last. -/
theorem steps_parent (importer : Path) :
    steps (importer.parent?.getD ⟨""⟩).text.toList =
      importer.components.dropLast.filter (· ≠ .current) := by
  have are : AreProper importer.components := areProper_componentsOf _
  unfold parent?
  rcases List.eq_nil_or_concat' importer.components with empty | ⟨before, last, all⟩
  · rw [empty]
    rfl
  · rw [all] at are ⊢
    rw [List.getLast?_concat, List.dropLast_concat]
    by_cases root : last = .root
    · have alone : before = [] := by
        cases before with
        | nil => rfl
        | cons first rest =>
          have listed : last ∈ (first :: rest ++ [last]).tail :=
            List.mem_append_right rest (List.mem_singleton_self _)
          exact absurd root (are.inner last listed)
      rw [root, alone]
      rfl
    · have proper : AreProper before := by
        have shorter := are.dropLast
        rwa [List.dropLast_concat] at shorter
      have read := steps_ofComponents proper
      cases last with
      | root => exact absurd rfl root
      | _ => exact read

/-- The components that a specifier and its importer name are proper. -/
theorem isProper_of_mem_named {importer : Path} {specifier : String} {component : Component}
    (listed : component ∈ named importer specifier) : component.IsProper := by
  rcases List.mem_append.1 listed with held | held
  · split at held
    · cases held
    · exact (areProper_componentsOf _).dropLast.proper component held
  · exact (areProper_componentsOf _).proper component held

end Path

namespace Project

open Glean.Path

/-- How a specifier is written that names a place. -/
def NamesPlace (specifier : String) : Prop :=
  specifier.startsWith "./" = true ∨ specifier.startsWith "../" = true ∨
    specifier.startsWith "/" = true

/-- A place has the steps that are named. -/
theorem place?_spec (project : Project) (importer : Path) {specifier : String}
    (written : NamesPlace specifier) :
    ∃ place, project.place? importer specifier = some place ∧
      steps place.text.toList = (named importer specifier).filter (· ≠ .current) := by
  have apart : specifier.startsWith "/" = true →
      specifier.startsWith "./" = false ∧ specifier.startsWith "../" = false := by
    intro absolute
    have slash := (startsWith_slash_iff specifier).1 absolute
    constructor <;>
    · rw [Bool.eq_false_iff, ne_eq, String.startsWith_string_iff]
      rintro ⟨rest, same⟩
      rw [← same] at slash
      cases slash
  by_cases absolute : specifier.startsWith "/" = true
  · obtain ⟨here, above⟩ := apart absolute
    refine ⟨⟨specifier⟩, ?_, ?_⟩
    · simp [place?, here, above, absolute]
    · rw [named, if_pos absolute, List.nil_append, filter_componentsOf]
  · have relative : (specifier.startsWith "./" || specifier.startsWith "../") = true := by
      rcases written with here | above | absolute'
      · rw [here, Bool.true_or]
      · rw [above, Bool.or_true]
      · exact absurd absolute' absolute
    refine ⟨(importer.parent?.getD ⟨""⟩).join specifier, ?_, ?_⟩
    · rw [place?, if_pos relative]
    · rw [steps_join _ absolute, steps_parent, named, if_neg absolute, List.filter_append,
        filter_componentsOf]

/-- The paths at which a place made of components is looked for. -/
theorem candidates_ofComponents {components : List Component} (are : AreProper components) :
    candidates (ofComponents components) = alternatives components := by
  have joined (ending : String) : (ofComponents components).join ("index." ++ ending) =
      ofComponents (components ++ [.name ("index." ++ ending)]) := by
    refine join_ofComponents are ?_
    rw [startsWith_slash_iff, String.toList_append]
    exact nofun
  have appended (ending : String) : (ofComponents components).text ++ "." ++ ending =
      (ofComponents components).text ++ ("." ++ ending) := String.append_assoc
  simp only [candidates, alternatives, codeExtensions, joined, appended]
  rfl

/-- A specifier that names a place resolves to the first path that is present among those for its
target, when the target of a relative path has at most one climb, and that of an absolute path
climbs above the root an even number of times. In any case it resolves to the first of those for the
target that is left when two climbs in a row come to nothing, and this is another target
otherwise. -/
theorem resolve_settles (project : Project) (importer : Path) (specifier : String)
    (written : NamesPlace specifier) :
    let components := named importer specifier
    let target := components.foldl settle []
    let rooted := components.contains .root
    let course := Course.along components
    (course.isDirect rooted = true → project.resolve? importer specifier =
      (alternatives target).find? fun path => Entries.contains project.files path) ∧
    (project.resolve? importer specifier =
      (alternatives (course.paired rooted)).find? fun path => Entries.contains project.files path) ∧
    (course.paired rooted = target ↔ course.isDirect rooted = true) := by
  intro components target rooted course
  obtain ⟨place, found, same⟩ := project.place?_spec importer written
  have settled : target = course.lexical rooted :=
    Course.foldl_of_steps settle Course.lexical (fun _ course _ => Course.settle_lexical course)
      (fun _ => rfl) rfl rfl same
  have resolved : components.foldl Path.resolve [] = course.paired rooted :=
    Course.foldl_of_steps Path.resolve Course.paired
      (fun _ course _ => Course.resolve_paired course) (fun _ => rfl) rfl rfl same
  -- The place and what is named differ in `.` at most.
  have reached : place.normalize = ofComponents (course.paired rooted) := by
    have idle (done : List Component) : Path.resolve done .current = done := rfl
    rw [Path.normalize, ← foldl_filter_current idle, Path.components, filter_componentsOf, same,
      foldl_filter_current idle, resolved]
  have proper : course.IsProper := Course.isProper_along fun _ => isProper_of_mem_named
  have resolves : project.resolve? importer specifier =
      (alternatives (course.paired rooted)).find? fun path =>
        Entries.contains project.files path := by
    rw [← candidates_ofComponents (Course.areProper_paired proper), ← reached, resolve?, found]
    rfl
  have agrees : course.paired rooted = target ↔ course.isDirect rooted = true := by
    rw [settled]
    exact Course.paired_eq_lexical_iff course
  refine ⟨fun direct => ?_, resolves, agrees⟩
  rw [resolves, agrees.2 direct]

/-- An empty file. -/
def emptyFile (path : String) : Document := .make ⟨path⟩ "" ⟨[]⟩

/-- `../b/c` in `/src/a/x.ts` is `/src/b/c.ts`. -/
theorem resolve_settles_beside :
    let project := Project.insert {} (emptyFile "/src/b/c.ts")
    let components := named ⟨"/src/a/x.ts"⟩ "../b/c"
    NamesPlace "../b/c" ∧
      (Course.along components).isDirect (components.contains .root) = true ∧
      components.foldl settle [] = [.root, .name "src", .name "b", .name "c"] ∧
      project.resolve? ⟨"/src/a/x.ts"⟩ "../b/c" = some ⟨"/src/b/c.ts"⟩ ∧
      (alternatives (components.foldl settle [])).find? (Entries.contains project.files) =
        some ⟨"/src/b/c.ts"⟩ := by
  intro project components
  have written : NamesPlace "../b/c" := .inr (.inl (by decide +kernel))
  have direct : (Course.along components).isDirect (components.contains .root) = true := by
    decide +kernel
  have resolved : project.resolve? ⟨"/src/a/x.ts"⟩ "../b/c" = some ⟨"/src/b/c.ts"⟩ := by
    decide +kernel
  have first := (resolve_settles project ⟨"/src/a/x.ts"⟩ "../b/c" written).1 direct
  exact ⟨written, direct, by decide +kernel, resolved, first.symm.trans resolved⟩

/-- `../../x` in `b.ts` names nothing inside the directory, yet it resolves to `x.ts` there. And
`/../a` is `/a.ts`, as nothing is above the root, yet it does not resolve to it. -/
theorem not_resolve_settles :
    (let project := Project.insert {} (emptyFile "x.ts")
      let target := (named ⟨"b.ts"⟩ "../../x").foldl settle []
      NamesPlace "../../x" ∧ target = [.parent, .parent, .name "x"] ∧
        project.resolve? ⟨"b.ts"⟩ "../../x" = some ⟨"x.ts"⟩ ∧
        (alternatives target).find? (Entries.contains project.files) = none) ∧
    (let project := Project.insert {} (emptyFile "/a.ts")
      let target := (named ⟨"/b.ts"⟩ "/../a").foldl settle []
      NamesPlace "/../a" ∧ target = [.root, .name "a"] ∧
        project.resolve? ⟨"/b.ts"⟩ "/../a" = none ∧
        (alternatives target).find? (Entries.contains project.files) = some ⟨"/a.ts"⟩) := by
  have relative : NamesPlace "../../x" := .inr (.inl (by decide +kernel))
  have absolute : NamesPlace "/../a" := .inr (.inr (by decide +kernel))
  exact ⟨⟨relative, by decide +kernel, by decide +kernel, by decide +kernel⟩,
    ⟨absolute, by decide +kernel, by decide +kernel, by decide +kernel⟩⟩

end Project

end Glean
