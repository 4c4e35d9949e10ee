import Glean.Box.Static
import Glean.Proofs.Box.Equality
import Glean.Proofs.Number.Position

/-!
# Equal boxes are indistinguishable

Numbers that are the same for boxes are the same or zeros of both signs (`eq_or_zeros_of_merged`), and
what is asked of a box tells zeros as little apart as it tells nodes apart. So equal boxes decide
conditions alike, have equal alternatives, the same unknown parts, the same value in a data file, and
equal members under every key (`beq_congruence`).
-/

namespace Glean

namespace Number

/-- A number is zero, of either sign. -/
def IsZero (value : Float) : Prop := merged value = .zero .positive

variable {value twin : Float}

/-- Nothing is merged in a number that is not zero. -/
theorem merged_of_not_isZero (other : ¬IsZero value) : merged value = value.toModel.unpack := by
  unfold IsZero merged at other
  unfold merged
  cases unpacked : value.toModel.unpack with
  | zero => exact absurd (by rw [unpacked]; rfl) other
  | _ => rfl

/-- Numbers that are the same for boxes are the same, or both zero. -/
theorem eq_or_zeros_of_merged (equal : merged value = merged twin) :
    value = twin ∨ IsZero value ∧ IsZero twin := by
  by_cases zero : IsZero value
  · exact .inr ⟨zero, equal.symm.trans zero⟩
  · have next : ¬IsZero twin := fun other => zero (equal.trans other)
    -- Apart from zeros nothing is merged, and a number is determined by its unpacked form.
    have unpacked : value.toModel.unpack = twin.toModel.unpack :=
      calc value.toModel.unpack = merged value := (merged_of_not_isZero zero).symm
        _ = merged twin := equal
        _ = twin.toModel.unpack := merged_of_not_isZero next
    have denoted : exact value = exact twin := by rw [exact_eq, exact_eq, unpacked]
    exact .inl (exact_injective denoted)

/-- A zero of either sign is equal to zero. -/
theorem IsZero.beq (zero : IsZero value) : (value == 0) = true := by
  have same : (value == 0 || (value.isNaN && (0 : Float).isNaN)) = true :=
    same_iff.2 (zero.trans rfl)
  have defined : (0 : Float).isNaN = false := by decide +kernel
  rwa [defined, Bool.and_false, Bool.or_false] at same

/-- A zero of either sign is the integer zero. -/
theorem IsZero.toInt? (zero : IsZero value) : toInt? value = some 0 := by
  unfold IsZero merged at zero
  cases unpacked : value.toModel.unpack with
  | zero sign =>
    have stored : exact value = .finite (sign == .negative) 0 (-1074) := by
      rw [exact_eq, unpacked]
      rfl
    rw [Number.toInt?, stored]
    simp only [Nat.zero_mul, Nat.zero_mod, Nat.zero_div, if_true, signed, Int.natCast_zero,
      Int.neg_zero, ite_self]
  | _ => rw [unpacked] at zero; cases zero

end Number

namespace Primitive

variable {value twin : Primitive}

/-- Values that are the same for boxes are the same, or zeros. -/
theorem eq_or_zeros_of_same (equal : value.same twin = true) :
    value = twin ∨ ∃ x y, value = number x ∧ twin = number y ∧ Number.IsZero x ∧
      Number.IsZero y := by
  have merged := same_iff.1 equal
  cases value with
  | number x =>
    cases twin with
    | number y =>
      refine (Number.eq_or_zeros_of_merged (Sum.inr.inj merged)).imp (congrArg number) ?_
      exact fun zeros => ⟨x, y, rfl, rfl, zeros⟩
    | _ => cases merged
  | _ =>
    cases twin with
    | number => cases merged
    | _ => exact .inl (Sum.inl.inj merged)

/-- Values that are the same are both true or both not. -/
theorem truthy_of_same (equal : value.same twin = true) : value.truthy = twin.truthy := by
  obtain rfl | ⟨x, y, rfl, rfl, zero, next⟩ := eq_or_zeros_of_same equal
  · rfl
  · simp [truthy, bne, zero.beq, next.beq]

/-- Values that are the same are both nullish or both not. -/
theorem nullish_of_same (equal : value.same twin = true) : value.nullish = twin.nullish := by
  obtain rfl | ⟨x, y, rfl, rfl, -⟩ := eq_or_zeros_of_same equal <;> rfl

/-- Values that are the same are written alike in a data file. -/
theorem toData_of_same (equal : value.same twin = true) : value.toData = twin.toData := by
  obtain rfl | ⟨x, y, rfl, rfl, zero, next⟩ := eq_or_zeros_of_same equal
  · rfl
  · rw [toData, toData, zero.toInt?, next.toInt?]
    rfl

end Primitive

namespace Box

variable {box other : Box} {node place : Reference}

/-! ### Decisions -/

/-- Equal boxes agree on a question that equal values answer alike. -/
theorem agreed_of_same {question : Box → Option Bool}
    (alike : ∀ {value twin : Box}, same value twin = true → question value = question twin)
    (equal : (box == other) = true) : agreed question box = agreed question other := by
  have answers : box.possible.map question = other.possible.map question := by
    have pairs := possible_of_same equal
    generalize box.possible = values at pairs
    generalize other.possible = twins at pairs
    induction pairs with
    | nil => rfl
    | cons first _ ih => rw [List.map_cons, List.map_cons, alike first, ih]
  rw [agreed, agreed, answers]

/-- Equal boxes decide a condition alike. -/
theorem truthy?_of_same (equal : (box == other) = true) : box.truthy? = other.truthy? := by
  refine agreed_of_same (fun {value twin} equal => ?_) equal
  cases value with
  | literal =>
    obtain ⟨twin, _, rfl, equal⟩ := same_literal_iff.1 equal
    exact congrArg some (Primitive.truthy_of_same equal)
  | _ => cases twin <;> first | rfl | simp [same] at equal

/-- Equal boxes decide alike whether they are nullish. -/
theorem nullish?_of_same (equal : (box == other) = true) : box.nullish? = other.nullish? := by
  refine agreed_of_same (fun {value twin} equal => ?_) equal
  cases value with
  | literal =>
    obtain ⟨twin, _, rfl, equal⟩ := same_literal_iff.1 equal
    exact congrArg some (Primitive.nullish_of_same equal)
  | _ => cases twin <;> first | rfl | simp [same] at equal

/-! ### Values in data files -/

/-- Equal boxes have the same value in a data file, or both have none. -/
theorem toData?_of_same (equal : (box == other) = true) : box.toData? = other.toData? := by
  change same box other = true at equal
  induction box generalizing other with
  | literal =>
    obtain ⟨_, _, rfl, equal⟩ := same_literal_iff.1 equal
    exact congrArg some (Primitive.toData_of_same equal)
  | list items _ each =>
    obtain ⟨others, _, rfl, pairs⟩ := same_list_iff.1 equal
    clear equal
    have parts : dataOfItems? items = dataOfItems? others := by
      induction pairs with
      | nil => rfl
      | cons first _ ih =>
        rw [dataOfItems?, dataOfItems?, each _ (List.mem_cons_self ..) first,
          ih fun item found => each item (List.mem_cons_of_mem _ found)]
    rw [toData?, toData?, parts]
  | map entries _ each =>
    obtain ⟨others, _, rfl, pairs⟩ := same_map_iff.1 equal
    clear equal
    have parts : dataOfEntries? entries = dataOfEntries? others := by
      induction pairs with
      | nil => rfl
      | @cons entry twin _ _ first _ ih =>
        obtain ⟨key, value⟩ := entry
        obtain ⟨_, next⟩ := twin
        obtain ⟨rfl, first⟩ := first
        rw [dataOfEntries?, dataOfEntries?, each (key, value) (List.mem_cons_self ..) first,
          ih fun entry found => each entry (List.mem_cons_of_mem _ found)]
    rw [toData?, toData?, parts]
  | conditional =>
    obtain ⟨_, _, _, _, rfl, _⟩ := same_conditional_iff.1 equal
    rfl
  | unresolvable =>
    obtain ⟨_, rfl⟩ := same_unresolvable_iff.1 equal
    rfl

/-! ### Members -/

/-- What is read where nothing stands is the same at all nodes. -/
theorem same_undefined (node place : Reference) :
    same (literal .undefined (some node)) (literal .undefined (some place)) = true := rfl

/-- Lists that hold the same hold the same at each position. -/
theorem getElem?_of_same {items others : List Box}
    (pairs : List.Forall₂ (fun item twin => same item twin = true) items others)
    (position : Nat) :
    same ((items[position]?).getD (literal .undefined (some node)))
      ((others[position]?).getD (literal .undefined (some place))) = true := by
  induction pairs generalizing position with
  | nil => exact same_undefined node place
  | cons first _ ih =>
    cases position with
    | zero => exact first
    | succ position => exact ih position

/-- Objects that hold the same hold the same under each key. -/
theorem get?_of_same {entries others : Entries String Box}
    (pairs : List.Forall₂ (fun entry twin => entry.1 = twin.1 ∧ same entry.2 twin.2 = true) entries
      others) (key : String) :
    same ((Entries.get? entries key).getD (literal .undefined (some node)))
      ((Entries.get? others key).getD (literal .undefined (some place))) = true := by
  induction pairs with
  | nil => exact same_undefined node place
  | @cons entry twin _ _ first _ ih =>
    obtain ⟨name, value⟩ := entry
    obtain ⟨_, next⟩ := twin
    obtain ⟨rfl, first⟩ := first
    rw [Entries.get?, Entries.get?]
    split
    · exact first
    · exact ih

/-- Equal boxes have equal members, read at whichever nodes. -/
theorem readLeaf_of_same (key : Primitive) (equal : same box other = true) :
    same (readLeaf key node box) (readLeaf key place other) = true := by
  cases box with
  | literal value =>
    obtain ⟨twin, _, rfl, equal⟩ := same_literal_iff.1 equal
    obtain rfl | ⟨x, y, rfl, rfl, -⟩ := Primitive.eq_or_zeros_of_same equal
    · cases value with
      | string value =>
        simp only [readLeaf]
        split
        · exact Primitive.same_self _
        · cases key.position?.bind (value.toList[·]?) with
          | none => exact same_undefined node place
          | some c => exact Primitive.same_self _
      | _ => exact same_undefined node place
    · exact same_undefined node place
  | list items =>
    obtain ⟨others, _, rfl, pairs⟩ := same_list_iff.1 equal
    simp only [readLeaf]
    split
    · rw [pairs.length_eq]
      exact Primitive.same_self _
    · cases key.position? with
      | none => exact same_undefined node place
      | some position => exact getElem?_of_same pairs position
  | map entries =>
    obtain ⟨others, _, rfl, pairs⟩ := same_map_iff.1 equal
    exact get?_of_same pairs key.toText
  | conditional =>
    obtain ⟨_, _, _, _, rfl, _⟩ := same_conditional_iff.1 equal
    exact equal
  | unresolvable =>
    obtain ⟨_, rfl⟩ := same_unresolvable_iff.1 equal
    exact equal

/-- An operation that takes equal boxes to equal ones does so in every alternative. -/
theorem distribute_of_same {operation next : Box → Box}
    (alike : ∀ {value twin : Box}, same value twin = true →
      same (operation value) (next twin) = true)
    (equal : same box other = true) :
    same (box.distribute node operation) (other.distribute place next) = true := by
  induction box generalizing other with
  | conditional _ _ _ _ first second =>
    obtain ⟨_, _, _, _, rfl, yes, no⟩ := same_conditional_iff.1 equal
    exact same_conditional_iff.2 ⟨_, _, _, _, rfl, first yes, second no⟩
  | _ =>
    cases other with
    | conditional => simp [same] at equal
    | _ => exact alike equal

/-- Equal boxes have equal members under every key. -/
theorem read_of_same (equal : (box == other) = true) (key : Primitive) :
    (box.read key node == other.read key place) = true :=
  distribute_of_same (readLeaf_of_same key) equal

/-! ### The congruence -/

/-- Nothing that is asked of boxes tells two of them apart. -/
structure Indistinct (box other : Box) : Prop where
  /-- Both decide a condition alike, or neither does. -/
  truthy? : box.truthy? = other.truthy?
  /-- Both are nothing, both are something, or neither is known. -/
  nullish? : box.nullish? = other.nullish?
  /-- They have equal alternatives in order. -/
  possible : List.Forall₂ (fun value twin => (value == twin) = true) box.possible other.possible
  /-- Their unknown parts are so for the same reasons in order. -/
  reasons : box.unresolvables.map Prod.fst = other.unresolvables.map Prod.fst
  /-- They are the same value in a data file, or both are none. -/
  toData? : box.toData? = other.toData?
  /-- They have equal members under every key, wherever these are read. -/
  read : ∀ (key : Primitive) (node place : Reference),
    (box.read key node == other.read key place) = true

/-- Equality of boxes is an equivalence, and nothing that is asked of boxes tells equal ones apart. -/
theorem beq_congruence :
    Equivalence (fun box other : Box => (box == other) = true) ∧
      ∀ box other : Box, (box == other) = true → Indistinct box other where
  left := ⟨fun _ => BEq.rfl, BEq.symm, BEq.trans⟩
  right _ _ equal :=
    { truthy? := truthy?_of_same equal
      nullish? := nullish?_of_same equal
      possible := possible_of_same equal
      reasons := reasons_of_same equal
      toData? := toData?_of_same equal
      read := fun key _ _ => read_of_same equal key }

end Box

end Glean
