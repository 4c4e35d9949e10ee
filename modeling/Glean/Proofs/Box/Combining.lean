import Glean.Proofs.Box.Nodes
import Mathlib.Algebra.Order.BigOperators.Group.List
import Mathlib.Algebra.Order.Group.Nat

/-!
# Operators on alternatives

An operator on two boxes that are known has one alternative for each pair of alternatives, in the
order of the pairs (`possible_combine`). In any case it has no more alternatives than there are
pairs, so within the bound no result has more than the bound (`length_possible_binary_le`).
-/

namespace Glean.Box

open Syntax

variable {box left right value : Box} {node : Reference}

/-- A box is its only alternative when nothing is known about it. -/
theorem possible_of_isUnresolvable (unknown : box.isUnresolvable = true) : box.possible = [box] := by
  cases box with
  | unresolvable => rfl
  | _ => cases unknown

/-- The result of an operator on two values: that of the operator where both are literals and it has
one, and unsupported otherwise. -/
def pairResult (operator : Binary) (node : Reference) (a b : Box) : Box :=
  match a.literal?, b.literal? with
  | some a, some b => ofResult node (Primitive.binary? operator a b)
  | _, _ => .unresolvable .unsupported (some node)

/-- The result for two leaves is not conditional. -/
theorem possible_binaryLeaf (operator : Binary) (node : Reference) (single : right.branches? = none) :
    (binaryLeaf operator node left right).possible = [binaryLeaf operator node left right] := by
  refine possible_of_value ?_
  cases left with
  | literal a =>
    cases right with
    | literal b =>
      rw [binaryLeaf]
      cases Primitive.binary? operator a b <;> rfl
    | _ => rfl
  | unresolvable => rfl
  | _ => cases right <;> rfl

/-- For values that are known, the result of a pair is that of the operator. -/
theorem binaryLeaf_of_known (operator : Binary) (node : Reference)
    (known : left.isUnresolvable = false) (knownNext : right.isUnresolvable = false) :
    binaryLeaf operator node left right = pairResult operator node left right := by
  cases left with
  | unresolvable => cases known
  | _ =>
    cases right with
    | unresolvable => cases knownNext
    | _ => rfl

/-- An operator on two boxes of which every alternative is known has the results for all pairs of
alternatives, in order. -/
theorem possible_combine (operator : Binary) (node : Reference)
    (known : ∀ value ∈ left.possible, value.isUnresolvable = false)
    (knownNext : ∀ value ∈ right.possible, value.isUnresolvable = false) :
    (combine operator node left right).possible =
      left.possible.flatMap fun a => right.possible.map fun b => pairResult operator node a b := by
  have whole : ∀ {box : Box}, (∀ value ∈ box.possible, value.isUnresolvable = false) →
      box.isUnresolvable = false := by
    intro box known
    by_contra unknown
    have alone := possible_of_isUnresolvable (Bool.not_eq_false _ ▸ unknown)
    exact unknown (known box (alone ▸ List.mem_singleton.2 rfl))
  rw [combine_eq, whole known, whole knownNext, if_neg Bool.false_ne_true,
    if_neg Bool.false_ne_true, possible_distribute]
  refine List.flatMap_congr fun a found => ?_
  rw [known a found, if_neg Bool.false_ne_true, possible_distribute, List.map_eq_flatMap]
  refine List.flatMap_congr fun b foundNext => ?_
  rw [possible_binaryLeaf operator node (branches?_of_possible foundNext),
    binaryLeaf_of_known operator node (known a found) (knownNext b foundNext)]

/-- A box has at least one alternative. -/
theorem one_le_length_possible (box : Box) : 1 ≤ box.possible.length :=
  List.length_pos_iff.2 box.possible_ne_nil

/-- A result has at most so many alternatives for each alternative of the box as each operation has.
-/
theorem length_possible_distribute_le {operation : Box → Box} (bound : Nat)
    (each : ∀ value ∈ box.possible, (operation value).possible.length ≤ bound) :
    (box.distribute node operation).possible.length ≤ box.possible.length * bound := by
  have total := List.sum_le_card_nsmul
    (box.possible.map fun value => (operation value).possible.length) bound (by simpa using each)
  simpa [possible_distribute, List.length_flatMap] using total

/-- An operator has at most one alternative for each pair of alternatives. -/
theorem length_possible_combine_le (operator : Binary) (node : Reference) (left right : Box) :
    (combine operator node left right).possible.length ≤
      left.possible.length * right.possible.length := by
  have some := one_le_length_possible left
  have others := one_le_length_possible right
  have single : ∀ {box : Box}, box.isUnresolvable = true → box.possible.length = 1 := by
    intro box unknown
    rw [possible_of_isUnresolvable unknown, List.length_singleton]
  rw [combine_eq]
  split
  · exact (single ‹_›).le.trans (Nat.mul_pos some others)
  split
  · exact (single ‹_›).le.trans (Nat.mul_pos some others)
  · refine length_possible_distribute_le _ fun a _ => ?_
    split
    · exact (single ‹_›).le.trans others
    · refine (length_possible_distribute_le 1 fun b found => ?_).trans (Nat.mul_one _).le
      rw [possible_binaryLeaf operator node (branches?_of_possible found), List.length_singleton]

/-- The result of an operator has no more alternatives than the bound. -/
theorem length_possible_binary_le (operator : Binary) (node : Reference) (left right : Box) :
    (Box.binary operator node left right).possible.length ≤ alternativeLimit := by
  unfold Box.binary
  split
  · exact (by decide : 1 ≤ alternativeLimit)
  · rename_i within
    exact (length_possible_combine_le operator node left right).trans (Nat.le_of_not_lt within)

end Glean.Box
