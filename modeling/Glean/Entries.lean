/-!
# Entries in order

Pairs of a key and a value in the order in which the keys came first. A later value for a key
takes the place of the earlier one.
-/

namespace Glean

/-- Keys with their values, in the order in which the keys came first. -/
abbrev Entries (κ α : Type) := List (κ × α)

namespace Entries

variable {κ α β : Type} [BEq κ]

/-- The value under a key. -/
def get? (entries : Entries κ α) (key : κ) : Option α :=
  match entries with
  | [] => none
  | (other, value) :: rest => if other == key then some value else get? rest key

/-- Whether there is a value under a key. -/
def contains (entries : Entries κ α) (key : κ) : Bool := (get? entries key).isSome

/-- Changes the value under a key, which is absent when there was none before; a new key goes to
the end. -/
def update (entries : Entries κ α) (key : κ) (change : Option α → α) : Entries κ α :=
  match entries with
  | [] => [(key, change none)]
  | (other, value) :: rest =>
    if other == key then (other, change (some value)) :: rest
    else (other, value) :: update rest key change

/-- Puts a value under a key: at the place of the key if it has one, at the end otherwise. -/
def insert (entries : Entries κ α) (key : κ) (value : α) : Entries κ α :=
  update entries key fun _ => value

/-- Puts each pair of a list, in order. -/
def insertAll (entries pairs : Entries κ α) : Entries κ α :=
  pairs.foldl (fun entries (key, value) => insert entries key value) entries

/-- The entries of a list of pairs; of two pairs with one key the later gives the value. -/
def ofList (pairs : List (κ × α)) : Entries κ α := insertAll [] pairs

/-- The keys in order. -/
def keys (entries : Entries κ α) : List κ := entries.map Prod.fst

/-! ### What each operation does to values and keys -/

/-- An update changes what is under its key and nothing else. -/
theorem get?_update [LawfulBEq κ] (entries : Entries κ α) (key : κ) (change : Option α → α)
    (other : κ) :
    get? (update entries key change) other =
      if key == other then some (change (get? entries key)) else get? entries other := by
  induction entries with
  | nil => rfl
  | cons first rest ih =>
    obtain ⟨known, value⟩ := first
    by_cases found : known = key
    · subst found
      by_cases asked : known = other <;> simp [update, get?, asked]
    · by_cases asked : known = other
      · subst asked
        simp [update, get?, found, Ne.symm found]
      · simp [update, get?, found, asked, ih]

/-- An insertion puts the value under its key and changes nothing else. -/
theorem get?_insert [LawfulBEq κ] (entries : Entries κ α) (key : κ) (value : α) (other : κ) :
    get? (insert entries key value) other =
      if key == other then some value else get? entries other :=
  get?_update entries key _ other

/-- A key keeps its place when it is updated; a new one goes to the end. -/
theorem keys_update (entries : Entries κ α) (key : κ) (change : Option α → α) :
    keys (update entries key change) =
      if contains entries key then keys entries else keys entries ++ [key] := by
  induction entries with
  | nil => rfl
  | cons first rest ih =>
    obtain ⟨known, value⟩ := first
    by_cases found : (known == key) = true
    · simp [update, keys, contains, get?, found]
    · simp only [contains, keys] at ih
      simp only [update, keys, contains, get?, found, Bool.false_eq_true, if_false, List.map_cons,
        ih]
      by_cases held : (get? rest key).isSome = true <;> simp [held]

end Entries

end Glean
