import Glean.Box.Basic

/-!
# Alternatives of a box

A box with conditionals at its top stands for several values. `possible` lists them, `agreed`
answers a question about all of them when they agree, and `distribute` carries an operation into
each of them: `possible_distribute` says that the alternatives of the result are those of the
results.
-/

namespace Glean.Box

/-- The values that a box may take: the branches of its conditionals, in order. -/
def possible : Box → List Box
  | conditional whenTrue whenFalse _ _ => whenTrue.possible ++ whenFalse.possible
  | box => [box]

/-- Applies an operation to every value that a box may take. The conditions stay; the conditionals
come from the node of the operation. -/
def distribute (node : Reference) (operation : Box → Box) : Box → Box
  | conditional whenTrue whenFalse condition _ =>
    conditional (whenTrue.distribute node operation) (whenFalse.distribute node operation)
      condition (some node)
  | box => operation box

/-- The alternatives of a distributed operation are those of its results. -/
theorem possible_distribute (node : Reference) (operation : Box → Box) (box : Box) :
    (box.distribute node operation).possible =
      box.possible.flatMap fun value => (operation value).possible := by
  fun_induction distribute node operation box with
  | case1 whenTrue whenFalse condition _ left right => simp [possible, left, right]
  | case2 box leaf =>
    cases box with
    | conditional => exact (leaf _ _ _ _ rfl).elim
    | _ => simp [possible]

/-- The answer to a question that all possible values give. -/
def agreed (question : Box → Option Bool) (box : Box) : Option Bool :=
  match box.possible.map question with
  | some answer :: others => if others.all (· == some answer) then some answer else none
  | _ => none

/-- Whether a condition takes the box as true, when that is known. -/
def truthy? : Box → Option Bool :=
  agreed fun
    | literal value _ => some value.truthy
    | list .. | map .. => some true
    | _ => none

/-- Whether the box is one of the two values for nothing, when that is known. -/
def nullish? : Box → Option Bool :=
  agreed fun
    | literal value _ => some value.nullish
    | list .. | map .. => some false
    | _ => none

mutual

/-- Every part of a box about which nothing is known, depth first. -/
def unresolvables : Box → List (Reason × Option Reference)
  | literal .. => []
  | list items _ => unresolvablesOfItems items
  | map entries _ => unresolvablesOfEntries entries
  | conditional whenTrue whenFalse _ _ => whenTrue.unresolvables ++ whenFalse.unresolvables
  | unresolvable reason node => [(reason, node)]

/-- The unresolvable parts of the items of a list. -/
def unresolvablesOfItems : List Box → List (Reason × Option Reference)
  | [] => []
  | item :: rest => item.unresolvables ++ unresolvablesOfItems rest

/-- The unresolvable parts of the values of a map. -/
def unresolvablesOfEntries : List (String × Box) → List (Reason × Option Reference)
  | [] => []
  | (_, value) :: rest => value.unresolvables ++ unresolvablesOfEntries rest

end

end Glean.Box
