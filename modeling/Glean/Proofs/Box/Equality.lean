import Glean.Proofs.Box.Nodes
import Mathlib.Data.List.Forall2

/-!
# Equality of boxes

Equality of boxes is an equivalence. For numbers it takes both zeros as one and makes an undefined
number equal to itself, which the strict equality of the language does not. Boxes that differ in
their nodes only are equal, and equal boxes have equal alternatives and unresolvable parts for the
same reasons. Whether two boxes are one, their nodes included, can be decided as well.
-/

namespace Glean

open Float.Model (UnpackedFloat)

namespace Number

/-- Makes one of both zeros. -/
def mergeZeros : UnpackedFloat → UnpackedFloat
  | .zero _ => .zero .positive
  | other => other

/-- Finite numbers of one sign are ordered by their exponents and then by their mantissas. -/
theorem order_eq_iff {sign : UnpackedFloat.Sign} {m n : Nat} {e f : Int} {positive : 0 < m}
    {positiveNext : 0 < n} :
    (compare e f).then (compare m n) = .eq ↔
      UnpackedFloat.finite sign m e positive = .finite sign n f positiveNext := by
  rw [Ordering.then_eq_eq, Std.LawfulEqCmp.compare_eq_iff_eq, Std.LawfulEqCmp.compare_eq_iff_eq]
  constructor
  · rintro ⟨rfl, rfl⟩
    rfl
  · intro same
    cases same
    exact ⟨rfl, rfl⟩

/-- Unpacked numbers compare equal, or are both undefined, when they differ in the sign of a zero at
most. -/
theorem mergeZeros_eq_iff {one other : UnpackedFloat} :
    (one.beq other || (one.isNaN && other.isNaN)) = true ↔ mergeZeros one = mergeZeros other := by
  cases one with
  | notANumber =>
    cases other with
    | notANumber => exact iff_of_true rfl rfl
    | _ => exact iff_of_false Bool.false_ne_true nofun
  | infinity sign =>
    cases other with
    | infinity twin =>
      cases sign <;> cases twin <;>
        first | exact iff_of_true rfl rfl | exact iff_of_false Bool.false_ne_true nofun
    | _ => cases sign <;> exact iff_of_false Bool.false_ne_true nofun
  | zero =>
    cases other with
    | zero => exact iff_of_true rfl rfl
    | infinity twin | finite twin => cases twin <;> exact iff_of_false Bool.false_ne_true nofun
    | notANumber => exact iff_of_false Bool.false_ne_true nofun
  | finite sign =>
    cases other with
    | finite twin =>
      cases sign with
      | negative =>
        cases twin with
        | negative =>
          refine Iff.trans ?_ order_eq_iff
          change (some _ == some Ordering.eq || false) = true ↔ _
          rw [Bool.or_false, beq_iff_eq, Option.some_inj, Ordering.swap_eq_eq]
        | positive => exact iff_of_false Bool.false_ne_true nofun
      | positive =>
        cases twin with
        | negative => exact iff_of_false Bool.false_ne_true nofun
        | positive =>
          refine Iff.trans ?_ order_eq_iff
          change (some _ == some Ordering.eq || false) = true ↔ _
          rw [Bool.or_false, beq_iff_eq, Option.some_inj]
    | infinity twin => cases sign <;> cases twin <;> exact iff_of_false Bool.false_ne_true nofun
    | _ => cases sign <;> exact iff_of_false Bool.false_ne_true nofun

/-- What the equality of boxes looks at in a number: both zeros are one. -/
def merged (value : Float) : UnpackedFloat := mergeZeros value.toModel.unpack

/-- Numbers are the same when they differ in the sign of a zero at most. -/
theorem same_iff {a b : Float} :
    (a == b || (a.isNaN && b.isNaN)) = true ↔ merged a = merged b := mergeZeros_eq_iff

end Number

namespace Primitive

/-- What the equality of boxes looks at in a value. -/
def merged : Primitive → Primitive ⊕ UnpackedFloat
  | number value => .inr (Number.merged value)
  | value => .inl value

/-- Values are the same when nothing but the sign of a zero is different. -/
theorem same_iff {a b : Primitive} : a.same b = true ↔ a.merged = b.merged := by
  cases a with
  | number value =>
    cases b with
    | number other => simpa only [same, merged, Sum.inr.injEq] using Number.same_iff
    | _ => simp [same, strictEquals, merged]
  | _ => cases b <;> simp [same, strictEquals, merged]

/-- A value is the same as itself. -/
theorem same_self (value : Primitive) : value.same value = true := same_iff.2 rfl

end Primitive

namespace Box

mutual

/-- Whether two boxes are one box, their nodes included. -/
def decEq : (one other : Box) → Decidable (one = other)
  | literal a m, literal b n =>
    decidable_of_iff (a = b ∧ m = n) (literal.injEq ..).to_iff.symm
  | list a m, list b n =>
    have := decEqItems a b
    decidable_of_iff (a = b ∧ m = n) (list.injEq ..).to_iff.symm
  | map a m, map b n =>
    have := decEqEntries a b
    decidable_of_iff (a = b ∧ m = n) (map.injEq ..).to_iff.symm
  | conditional a b c m, conditional x y z n =>
    have := decEq a x
    have := decEq b y
    decidable_of_iff (a = x ∧ b = y ∧ c = z ∧ m = n) (conditional.injEq ..).to_iff.symm
  | unresolvable a m, unresolvable b n =>
    decidable_of_iff (a = b ∧ m = n) (unresolvable.injEq ..).to_iff.symm
  | literal .., list .. | literal .., map .. | literal .., conditional ..
  | literal .., unresolvable .. | list .., literal .. | list .., map .. | list .., conditional ..
  | list .., unresolvable .. | map .., literal .. | map .., list .. | map .., conditional ..
  | map .., unresolvable .. | conditional .., literal .. | conditional .., list ..
  | conditional .., map .. | conditional .., unresolvable .. | unresolvable .., literal ..
  | unresolvable .., list .. | unresolvable .., map .. | unresolvable .., conditional .. =>
    isFalse nofun

/-- Whether two lists have one box at every place. -/
def decEqItems : (items others : List Box) → Decidable (items = others)
  | [], [] => isTrue rfl
  | a :: items, b :: others =>
    have := decEq a b
    have := decEqItems items others
    decidable_of_iff (a = b ∧ items = others) (List.cons.injEq ..).to_iff.symm
  | [], _ :: _ | _ :: _, [] => isFalse nofun

/-- Whether two maps have one key with one box at every place. -/
def decEqEntries : (entries others : List (String × Box)) → Decidable (entries = others)
  | [], [] => isTrue rfl
  | (key, a) :: entries, (twin, b) :: others =>
    have := decEq a b
    have := decEqEntries entries others
    decidable_of_iff ((key = twin ∧ a = b) ∧ entries = others)
      (by rw [List.cons.injEq, Prod.mk.injEq])
  | [], _ :: _ | _ :: _, [] => isFalse nofun

end

/-- It can be decided whether two boxes are one box, which asks more than their equality. -/
instance : DecidableEq Box := decEq

/-- A box equals itself. -/
theorem same_self (box : Box) : same box box = true := by
  induction box with
  | literal value => exact value.same_self
  | list items _ each =>
    rw [same]
    induction items with
    | nil => rfl
    | cons item rest ih =>
      rw [sameItems, each item (List.mem_cons_self ..),
        ih fun item found => each item (List.mem_cons_of_mem _ found)]
      rfl
  | map entries _ each =>
    rw [same]
    induction entries with
    | nil => rfl
    | cons entry rest ih =>
      obtain ⟨key, value⟩ := entry
      rw [sameEntries, each (key, value) (List.mem_cons_self ..),
        ih fun entry found => each entry (List.mem_cons_of_mem _ found)]
      simp
  | conditional _ _ _ _ first second => rw [same, first, second]; rfl
  | unresolvable => simp [same]

/-- Lists hold the same when their items are the same, place by place. -/
theorem sameItems_iff {items others : List Box} :
    sameItems items others = true ↔ List.Forall₂ (fun item other => same item other = true) items
      others := by
  induction items generalizing others with
  | nil => cases others <;> simp [sameItems]
  | cons item rest ih => cases others <;> simp [sameItems, ih]

/-- Objects hold the same when they have the same keys in the same order, with the same values. -/
theorem sameEntries_iff {entries others : Entries String Box} :
    sameEntries entries others = true ↔ List.Forall₂ (fun entry other =>
      entry.1 = other.1 ∧ same entry.2 other.2 = true) entries others := by
  induction entries generalizing others with
  | nil => cases others <;> simp [sameEntries]
  | cons entry rest ih => cases others <;> simp [sameEntries, ih, and_assoc]

section Forms

variable {value : Primitive} {items : List Box} {entries : Entries String Box}
  {whenTrue whenFalse other : Box} {reason : Reason} {condition node : Option Reference}

/-- Only literals with the same value equal a literal. -/
theorem same_literal_iff :
    same (literal value node) other = true ↔
      ∃ twin origin, other = literal twin origin ∧ value.same twin = true := by
  cases other <;> simp [same]

/-- Only lists with equal items equal a list. -/
theorem same_list_iff :
    same (list items node) other = true ↔
      ∃ others origin, other = list others origin ∧
        List.Forall₂ (fun item twin => same item twin = true) items others := by
  cases other <;> simp [same, sameItems_iff]

/-- Only maps with the same keys in order and equal values equal a map. -/
theorem same_map_iff :
    same (map entries node) other = true ↔
      ∃ others origin, other = map others origin ∧
        List.Forall₂ (fun entry twin => entry.1 = twin.1 ∧ same entry.2 twin.2 = true) entries
          others := by
  cases other <;> simp [same, sameEntries_iff]

/-- Only conditionals with equal branches equal a conditional. -/
theorem same_conditional_iff :
    same (conditional whenTrue whenFalse condition node) other = true ↔
      ∃ first second question origin, other = conditional first second question origin ∧
        same whenTrue first = true ∧ same whenFalse second = true := by
  cases other <;> simp [same]

/-- Only unresolvable boxes with its reason equal an unresolvable box. -/
theorem same_unresolvable_iff :
    same (unresolvable reason node) other = true ↔
      ∃ origin, other = unresolvable reason origin := by
  cases other with
  | unresolvable => simp only [same, beq_iff_eq, unresolvable.injEq, exists_and_left]; simp [eq_comm]
  | _ => simp [same]

end Forms

/-- Equality of boxes is symmetric. -/
theorem same_symm {box other : Box} (equal : same box other = true) : same other box = true := by
  induction box generalizing other with
  | literal value =>
    obtain ⟨twin, origin, rfl, equal⟩ := same_literal_iff.1 equal
    exact Primitive.same_iff.2 (Primitive.same_iff.1 equal).symm
  | list items _ each =>
    obtain ⟨others, origin, rfl, pairs⟩ := same_list_iff.1 equal
    refine same_list_iff.2 ⟨_, _, rfl, ?_⟩
    clear equal
    induction pairs with
    | nil => exact .nil
    | cons first _ ih =>
      exact .cons (each _ (List.mem_cons_self ..) first)
        (ih fun item found => each item (List.mem_cons_of_mem _ found))
  | map entries _ each =>
    obtain ⟨others, origin, rfl, pairs⟩ := same_map_iff.1 equal
    refine same_map_iff.2 ⟨_, _, rfl, ?_⟩
    clear equal
    induction pairs with
    | nil => exact .nil
    | cons first _ ih =>
      exact .cons ⟨first.1.symm, each _ (List.mem_cons_self ..) first.2⟩
        (ih fun entry found => each entry (List.mem_cons_of_mem _ found))
  | conditional _ _ _ _ first second =>
    obtain ⟨_, _, _, _, rfl, yes, no⟩ := same_conditional_iff.1 equal
    exact same_conditional_iff.2 ⟨_, _, _, _, rfl, first yes, second no⟩
  | unresolvable =>
    obtain ⟨_, rfl⟩ := same_unresolvable_iff.1 equal
    exact same_unresolvable_iff.2 ⟨_, rfl⟩

/-- Equality of boxes is transitive. -/
theorem same_trans {box other last : Box} (equal : same box other = true)
    (next : same other last = true) : same box last = true := by
  induction box generalizing other last with
  | literal value =>
    obtain ⟨twin, _, rfl, equal⟩ := same_literal_iff.1 equal
    obtain ⟨final, _, rfl, next⟩ := same_literal_iff.1 next
    exact Primitive.same_iff.2 ((Primitive.same_iff.1 equal).trans (Primitive.same_iff.1 next))
  | list items _ each =>
    obtain ⟨others, _, rfl, pairs⟩ := same_list_iff.1 equal
    obtain ⟨lasts, _, rfl, following⟩ := same_list_iff.1 next
    refine same_list_iff.2 ⟨_, _, rfl, ?_⟩
    clear equal next
    induction pairs generalizing lasts with
    | nil => exact following
    | cons first _ ih =>
      cases following with
      | cons firstNext following =>
        exact .cons (each _ (List.mem_cons_self ..) first firstNext)
          (ih (fun item found => each item (List.mem_cons_of_mem _ found)) _ following)
  | map entries _ each =>
    obtain ⟨others, _, rfl, pairs⟩ := same_map_iff.1 equal
    obtain ⟨lasts, _, rfl, following⟩ := same_map_iff.1 next
    refine same_map_iff.2 ⟨_, _, rfl, ?_⟩
    clear equal next
    induction pairs generalizing lasts with
    | nil => exact following
    | cons first _ ih =>
      cases following with
      | cons firstNext following =>
        exact .cons ⟨first.1.trans firstNext.1,
          each _ (List.mem_cons_self ..) first.2 firstNext.2⟩
          (ih (fun entry found => each entry (List.mem_cons_of_mem _ found)) _ following)
  | conditional _ _ _ _ first second =>
    obtain ⟨_, _, _, _, rfl, yes, no⟩ := same_conditional_iff.1 equal
    obtain ⟨_, _, _, _, rfl, yesNext, noNext⟩ := same_conditional_iff.1 next
    exact same_conditional_iff.2 ⟨_, _, _, _, rfl, first yes yesNext, second no noNext⟩
  | unresolvable =>
    obtain ⟨_, rfl⟩ := same_unresolvable_iff.1 equal
    obtain ⟨_, rfl⟩ := same_unresolvable_iff.1 next
    exact same_unresolvable_iff.2 ⟨_, rfl⟩

/-- Equality of boxes is an equivalence. -/
instance : EquivBEq Box where
  rfl := same_self _
  symm := same_symm
  trans := same_trans

/-- Equal boxes have equal alternatives, in order. -/
theorem possible_of_same {box other : Box} (equal : (box == other) = true) :
    List.Forall₂ (fun value twin => (value == twin) = true) box.possible other.possible := by
  change same box other = true at equal
  induction box generalizing other with
  | conditional _ _ _ _ first second =>
    obtain ⟨_, _, _, _, rfl, yes, no⟩ := same_conditional_iff.1 equal
    exact List.rel_append (first yes) (second no)
  | _ =>
    cases other with
    | conditional => simp [same] at equal
    | _ => exact .cons equal .nil

/-- The unresolvable parts of items are those of each item, in order. -/
theorem unresolvablesOfItems_eq (items : List Box) :
    unresolvablesOfItems items = items.flatMap unresolvables := by
  induction items with
  | nil => rfl
  | cons item rest ih => rw [unresolvablesOfItems, ih, List.flatMap_cons]

/-- The unresolvable parts of entries are those of each value, in order. -/
theorem unresolvablesOfEntries_eq (entries : Entries String Box) :
    unresolvablesOfEntries entries = entries.flatMap fun entry => entry.2.unresolvables := by
  induction entries with
  | nil => rfl
  | cons entry rest ih => rw [unresolvablesOfEntries, ih, List.flatMap_cons]

/-- Boxes that say the same have unresolvable parts for the same reasons, in the same order. -/
theorem reasons_of_same {box other : Box} (equal : (box == other) = true) :
    box.unresolvables.map Prod.fst = other.unresolvables.map Prod.fst := by
  change same box other = true at equal
  induction box generalizing other with
  | literal =>
    obtain ⟨_, _, rfl, _⟩ := same_literal_iff.1 equal
    rfl
  | list items _ each =>
    obtain ⟨others, _, rfl, pairs⟩ := same_list_iff.1 equal
    clear equal
    rw [unresolvables, unresolvables]
    induction pairs with
    | nil => rfl
    | cons first _ ih =>
      rw [unresolvablesOfItems, unresolvablesOfItems, List.map_append, List.map_append,
        each _ (List.mem_cons_self ..) first,
        ih fun item found => each item (List.mem_cons_of_mem _ found)]
  | map entries _ each =>
    obtain ⟨others, _, rfl, pairs⟩ := same_map_iff.1 equal
    clear equal
    rw [unresolvables, unresolvables]
    induction pairs with
    | nil => rfl
    | cons first _ ih =>
      rw [unresolvablesOfEntries, unresolvablesOfEntries, List.map_append, List.map_append,
        each _ (List.mem_cons_self ..) first.2,
        ih fun entry found => each entry (List.mem_cons_of_mem _ found)]
  | conditional _ _ _ _ first second =>
    obtain ⟨_, _, _, _, rfl, yes, no⟩ := same_conditional_iff.1 equal
    rw [unresolvables, unresolvables, List.map_append, List.map_append, first yes, second no]
  | unresolvable =>
    obtain ⟨_, rfl⟩ := same_unresolvable_iff.1 equal
    rfl

/-- A box that says the same as one without unresolvable parts has none either. -/
theorem unresolvables_of_same {box other : Box} (equal : (box == other) = true)
    (resolved : box.unresolvables = []) : other.unresolvables = [] := by
  have reasons := reasons_of_same equal
  rw [resolved, List.map_nil] at reasons
  exact List.map_eq_nil_iff.1 reasons.symm

/-- Boxes that look the same without their nodes are equal. -/
theorem Alike.beq {left right : Box} (alike : Alike .blind left right) : (left == right) = true := by
  change same left right = true
  rw [← @same_seen .blind, alike, same_self]

end Box

end Glean
