import Glean.Proofs.Project

/-!
# Modules that export all exports of others

`Project.Star` are the edges along which modules export all exports of other modules, and
`Project.Reaches` their closure. Files go by the components of their paths.

A search for an export follows these edges, in the order in which a module states them, until it
finds something. `Project.Way` are the ways that it may be on, given where the export is and whether
it counts as found there, and `Project.Clear` says that none of them visits a file twice.
-/

namespace Glean

open Syntax

namespace Project

/-- A module exports all exports of the file at a path. -/
def Star (project : Project) (path place : Path) : Prop :=
  ∃ source ∈ (project.scope path).stars,
    project.resolve? (project.scope path).file source = some place

/-- A module is the one at `origin`, or exports all exports of one that reaches it. -/
inductive Reaches (project : Project) (origin : Path) : Path → Prop where
  | here {path : Path} (same : path.components = origin.components) : Reaches project origin path
  | star {path place : Path} (edge : project.Star path place)
    (rest : Reaches project origin place) : Reaches project origin path

/-- A search for an export of `origin` goes on from a module to another one: the module is not the
origin, and nothing was found through the modules before. Through those that reach the origin the
export is found, unless it is `passed` over there because it is unbound. -/
def Tries (project : Project) (origin : Path) (passed : Prop) (path place : Path) : Prop :=
  path.components ≠ origin.components ∧
    ∃ before source after, (project.scope path).stars = before ++ source :: after ∧
      project.resolve? (project.scope path).file source = some place ∧
      (¬passed → ∀ earlier ∈ before, ∀ other,
        project.resolve? (project.scope path).file earlier = some other →
          ¬project.Reaches origin other)

/-- The ways of a search from a module, the latest module first. -/
inductive Way (project : Project) (origin : Path) (passed : Prop) (start : Path) :
    List Path → Prop where
  | begin : Way project origin passed start [start]
  | follow {path place : Path} {earlier : List Path}
    (way : Way project origin passed start (path :: earlier))
    (tries : project.Tries origin passed path place) :
    Way project origin passed start (place :: path :: earlier)

/-- A search from a module never comes back to a file that it is still searching. -/
def Clear (project : Project) (origin : Path) (passed : Prop) (start : Path) : Prop :=
  ∀ way, project.Way origin passed start way → (way.map Path.components).Nodup

variable {project : Project} {origin path place other start : Path} {passed : Prop}

/-- A module that takes over exports is a file of the project. -/
theorem Star.isSome_file? (edge : project.Star path place) : (project.file? path).isSome := by
  cases found : project.file? path with
  | none =>
    obtain ⟨source, listed, _⟩ := edge
    simp [scope, found, Scope.empty] at listed
  | some file => rfl

/-- Which modules a file takes exports over from depends on the components of its path. -/
theorem Star.congr (edge : project.Star path place) (same : path.components = other.components) :
    project.Star other place := by
  have scopes := scope_congr edge.isSome_file? same
  rwa [Star, ← scopes]

/-- What reaches a file is a file. -/
theorem Reaches.isSome_file? (reaches : project.Reaches origin path)
    (found : (project.file? origin).isSome) : (project.file? path).isSome := by
  cases reaches with
  | here same => rwa [file?_congr project (Path.beq_iff.2 same)]
  | star edge => exact edge.isSome_file?

/-- What is reached from a module depends on the components of its path. -/
theorem Reaches.congr (reaches : project.Reaches origin path)
    (same : path.components = other.components) : project.Reaches origin other := by
  cases reaches with
  | here here => exact .here (same.symm.trans here)
  | star edge rest => exact .star (edge.congr same) rest

/-- What is reached from what is reached is reached. -/
theorem Reaches.trans (first : project.Reaches path start) (second : project.Reaches origin path) :
    project.Reaches origin start := by
  induction first with
  | here same => exact second.congr same.symm
  | star edge _ ih => exact .star edge ih

/-- A module is reached along a single edge. -/
theorem Reaches.edge (edge : project.Star path place) : project.Reaches place path :=
  .star edge (.here rfl)

/-- A module is tried along an edge. -/
theorem Tries.star (tries : project.Tries origin passed path place) : project.Star path place := by
  obtain ⟨_, before, source, after, stars, target, _⟩ := tries
  exact ⟨source, stars ▸ List.mem_append_right _ (List.mem_cons_self ..), target⟩

/-- Every module on the way of a search is reached from its start and reaches the latest one. -/
theorem Way.reaches {way : List Path} (is : project.Way origin passed start way) :
    ∀ latest ∈ way.head?, ∀ path ∈ way,
      project.Reaches path start ∧ project.Reaches latest path := by
  induction is with
  | begin =>
    intro latest first path listed
    obtain rfl := List.mem_singleton.1 listed
    obtain rfl : path = latest := by simpa using first
    exact ⟨.here rfl, .here rfl⟩
  | @follow path place earlier _ tries ih =>
    intro latest first other listed
    obtain rfl : place = latest := by simpa using first
    have before := ih path rfl
    have edge := Reaches.edge tries.star
    rcases List.mem_cons.1 listed with rfl | listed
    · exact ⟨(before path (List.mem_cons_self ..)).1.trans edge, .here rfl⟩
    · exact ⟨(before other listed).1, (before other listed).2.trans edge⟩

/-- The latest module on a way is visited for the first time. -/
theorem Clear.fresh {earlier : List Path} (clear : project.Clear origin passed start)
    (way : project.Way origin passed start (path :: earlier)) (listed : other ∈ earlier) :
    other.components ≠ path.components := by
  have apart := clear _ way
  rw [List.map_cons, List.nodup_cons] at apart
  exact fun same => apart.1 (List.mem_map.2 ⟨other, listed, same⟩)

end Project

end Glean
