/-!
# Paths

A path is a text; two paths are the same when they have the same components. Repeated and trailing
slashes and inner `.` components make no difference, a leading `.` does.

`Path.normalize` resolves `.` and `..` by the text alone: `..` removes the component before it,
whichever that is, and stays where there is none.
-/

namespace Glean

/-- One step of a path. -/
inductive Component where
  /-- The start of an absolute path. -/
  | root
  /-- A `.` at the start of a relative path. -/
  | current
  /-- A `..`. -/
  | parent
  /-- The name of a file or directory. -/
  | name (text : String)
deriving DecidableEq, Repr, Inhabited

/-- The text of a component. -/
def Component.text : Component → String
  | root => "/"
  | current => "."
  | parent => ".."
  | name text => text

/-- The place of a file, as it was written. -/
structure Path where
  /-- The text as written. -/
  text : String
deriving DecidableEq, Inhabited

namespace Path

/-- The pieces of a text between slashes; there is always one more than there are slashes. -/
def pieces : List Char → List (List Char)
  | [] => [[]]
  | c :: rest =>
    if c = '/' then [] :: pieces rest
    else
      match pieces rest with
      | [] => [[c]]
      | piece :: others => (c :: piece) :: others

/-- The component of a piece that is not the first of a relative path. -/
def component? (piece : List Char) : Option Component :=
  if piece = [] ∨ piece = ['.'] then none
  else if piece = ['.', '.'] then some .parent
  else some (.name (String.ofList piece))

/-- The components of a text. -/
def componentsOf (text : List Char) : List Component :=
  match pieces text with
  | [] => []
  | piece :: others =>
    let first : Option Component :=
      if piece = ['.'] then some .current
      else if piece = [] ∧ others ≠ [] then some .root
      else component? piece
    first.toList ++ others.filterMap component?

/-- The components of a path; they are what makes two paths the same. -/
def components (path : Path) : List Component := componentsOf path.text.toList

/-- Two paths are the same when their components are. -/
instance : BEq Path := ⟨fun left right => left.components == right.components⟩

/-- Being the same path is a matter of the components alone. -/
theorem beq_iff {left right : Path} :
    (left == right) = true ↔ left.components = right.components :=
  beq_iff_eq (a := left.components)

/-- Paths that are the same can stand for each other. -/
instance : EquivBEq Path where
  rfl := beq_iff.2 rfl
  symm same := beq_iff.2 (beq_iff.1 same).symm
  trans first second := beq_iff.2 ((beq_iff.1 first).trans (beq_iff.1 second))

/-- The components joined by slashes. -/
def ofComponents (components : List Component) : Path :=
  match components with
  | .root :: rest => ⟨"/" ++ "/".intercalate (rest.map Component.text)⟩
  | components => ⟨"/".intercalate (components.map Component.text)⟩

/-- The path without its last component; the root and the empty path have none. -/
def parent? (path : Path) : Option Path :=
  match path.components.getLast? with
  | none | some .root => none
  | some _ => some (ofComponents path.components.dropLast)

/-- A path seen from a directory; an absolute one stays as it is. -/
def join (directory : Path) (text : String) : Path :=
  if text.startsWith "/" then ⟨text⟩
  else if directory.text.isEmpty || directory.text.endsWith "/" then ⟨directory.text ++ text⟩
  else ⟨directory.text ++ "/" ++ text⟩

/-- Adds one component to a normalized path: `.` is dropped, and `..` takes the last component
away unless there is none to take. -/
def resolve (done : List Component) : Component → List Component
  | .current => done
  | .parent =>
    match done.getLast? with
    | none | some .root => done ++ [.parent]
    | some _ => done.dropLast
  | component => done ++ [component]

/-- The path with `.` and `..` resolved by its text. -/
def normalize (path : Path) : Path := ofComponents (path.components.foldl resolve [])

/-- The name at the end of the path. -/
def fileName? (path : Path) : Option String :=
  match path.components.getLast? with
  | some (.name text) => some text
  | _ => none

/-- What follows the last dot of the name at the end of the path; a dot in front of the name
does not count. -/
def extension? (path : Path) : Option String := do
  let name ← path.fileName?
  let reversed := name.toList.reverse
  let after := reversed.takeWhile (· ≠ '.')
  match reversed.drop after.length with
  | '.' :: _ :: _ => some (String.ofList after.reverse)
  | _ => none

end Path

/-- The dialects in which a module can be written. -/
inductive Dialect where
  | typed
  | typedElements
  | elements
deriving DecidableEq

/-- The short name of a dialect. -/
def Dialect.name : Dialect → String
  | typed => "ts"
  | typedElements => "tsx"
  | elements => "es-jsx"

/-- The dialect of a file by the extension of its path. -/
def Path.dialect (path : Path) : Dialect :=
  match path.extension? with
  | some "ts" | some "mts" | some "cts" => .typed
  | some "tsx" => .typedElements
  | _ => .elements

end Glean
