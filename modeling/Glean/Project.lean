import Glean.Document

/-!
# Projects

The files of a project and the resolution of import specifiers between them. A specifier that
starts with a slash, `./` or `../` names a place; any other specifier needs an alias, whose prefix
is replaced by a directory. At the place itself, with an extension added, or in a directory there,
the first file that the project holds is taken.
-/

namespace Glean

/-- The extensions tried for a specifier without one, in order. -/
def codeExtensions : List String := ["ts", "tsx", "js", "jsx", "mjs"]

/-- A set of files with the aliases of directories. -/
structure Project where
  /-- The files under their paths. -/
  files : Entries Path Document := []
  /-- The directories under the prefixes that stand for them. -/
  aliases : Entries String Path := []
  /-- Every file stands under its own path, which may be written differently. -/
  keyed : ∀ entry ∈ files, (entry.2.path == entry.1) = true := by nofun

namespace Project

/-- A file put under its own path keeps every file under its own path. -/
theorem keyed_insert {files : Entries Path Document}
    (keyed : ∀ entry ∈ files, (entry.2.path == entry.1) = true) (file : Document) :
    ∀ entry ∈ Entries.insert files file.path file, (entry.2.path == entry.1) = true := by
  induction files with
  | nil => simp [Entries.insert, Entries.update]
  | cons first rest ih =>
    obtain ⟨path, old⟩ := first
    have others := ih fun entry found => keyed entry (List.mem_cons_of_mem _ found)
    intro entry found
    simp only [Entries.insert, Entries.update] at found others
    split at found
    · rename_i same
      rcases List.mem_cons.1 found with rfl | found
      · exact BEq.symm same
      · exact keyed entry (List.mem_cons_of_mem _ found)
    · rcases List.mem_cons.1 found with rfl | found
      · exact keyed _ (List.mem_cons_self ..)
      · exact others entry found

/-- Puts a file under its path. -/
def insert (project : Project) (file : Document) : Project :=
  { project with
    files := Entries.insert project.files file.path file
    keyed := keyed_insert project.keyed file }

/-- Puts a file under the normalized form of a path. -/
def add (project : Project) (path : Path) (code : String) (module : Syntax.Module) : Project :=
  project.insert (Document.make path.normalize code module)

/-- Lets a prefix stand for a directory. -/
def withAlias (project : Project) (start : String) (directory : Path) : Project :=
  { project with aliases := Entries.insert project.aliases start directory }

/-- The paths of the files in order. -/
def paths (project : Project) : List Path := Entries.keys project.files

/-- The file at a path. -/
def file? (project : Project) (path : Path) : Option Document :=
  Entries.get? project.files path

/-- A bound on the number of things in all files. -/
def weight (project : Project) : Nat :=
  project.files.foldr (fun (_, file) total => file.weight + total) 0

/-- The scope of the file at a path; a file that is not there binds nothing. -/
def scope (project : Project) (path : Path) : Scope :=
  match project.file? path with
  | some file => file.scope
  | none => .empty path

/-- The paths at which a place is looked for: the place itself, with each extension, and the index
file of a directory. -/
def candidates (place : Path) : List Path :=
  place ::
    (codeExtensions.map (fun ending => ⟨place.text ++ "." ++ ending⟩) ++
      codeExtensions.map fun ending => place.join ("index." ++ ending))

/-- The first of the paths for a place at which there is a file. -/
def probe? (project : Project) (place : Path) : Option Path :=
  (candidates place).find? fun path => Entries.contains project.files path

/-- The place that a specifier names when imported from a file. -/
def place? (project : Project) (importer : Path) (specifier : String) : Option Path :=
  if specifier.startsWith "./" || specifier.startsWith "../" then
    some ((importer.parent?.getD ⟨""⟩).join specifier)
  else if specifier.startsWith "/" then
    some ⟨specifier⟩
  else do
    let (start, directory) ← project.aliases.find? fun (start, _) => specifier.startsWith start
    some (directory.join (String.ofList (specifier.toList.drop start.length)))

/-- The path of the file that a specifier names when imported from a file. -/
def resolve? (project : Project) (importer : Path) (specifier : String) : Option Path := do
  let place ← project.place? importer specifier
  project.probe? place.normalize

end Project

end Glean
