import Glean.Box.Reading
import Glean.Proofs.Number.Integers

/-!
# Items of lists and characters of texts

What a key reads from a list or from a text. `Primitive.Names` says which place a key stands for:
the one whose decimal numeral is the text of the key. Reading parses the key instead, and accepts
numerals that are not written this way (`Primitive.isPadded`); for all others both agree
(`Primitive.position?_eq_some_iff`).

A text has as many places as sixteen-bit units, but is read by characters. Up to a place before
which every character takes one unit, these are the same (`Text.exists_character`).
-/

namespace Glean

open Number

namespace Primitive

/-- Whether a key is a number or a text and is written as a position is. -/
def Names (key : Primitive) (position : Nat) : Prop :=
  (key matches .number _ | .string _) ∧ key.toText = toString position

/-- It can be decided whether a key names a position. -/
instance (key : Primitive) (position : Nat) : Decidable (key.Names position) :=
  inferInstanceAs (Decidable (_ ∧ _))

/-- Whether a key is a numeral with a plus sign, or with zeros in front that it does not need. -/
def isPadded : Primitive → Bool
  | string text =>
    match text.toList with
    | '+' :: first :: digits => (first :: digits).all Char.isDigit
    | '0' :: second :: digits => (second :: digits).all Char.isDigit
    | _ => false
  | _ => false

/-- A text is read as a position when, after a sign, it consists of digits. -/
theorem position?_string_eq_some {text : String} {position : Nat}
    (read : (Primitive.string text).position? = some position) :
    (∀ c ∈ (Numeral.sign text.toList).2, c.isDigit) ∧ (Numeral.sign text.toList).2 ≠ [] ∧
      (Numeral.sign text.toList).1 = false ∧
      position = Nat.ofDigitChars 10 (Numeral.sign text.toList).2 0 := by
  unfold position? at read
  dsimp only at read
  split at read
  · rename_i value count full
    obtain ⟨all, rfl, counted⟩ := Numeral.all_of_digits full
    split at read
    · cases read
    · rename_i accepted
      obtain rfl := Option.some_inj.1 read
      rw [Bool.or_eq_true, not_or, Bool.not_eq_true] at accepted
      refine ⟨all, ?_, accepted.1, rfl⟩
      intro empty
      rw [empty] at counted
      cases counted
  · cases read

/-- A text that is read as a position, and is not padded, is written as this position. -/
theorem eq_toString_of_position? {text : String} {position : Nat}
    (read : (Primitive.string text).position? = some position)
    (plain : (Primitive.string text).isPadded = false) : text = toString position := by
  rw [Nat.toString_eq_ofList_toDigits]
  obtain ⟨all, some, positive, rfl⟩ := position?_string_eq_some read
  unfold isPadded at plain
  dsimp only at plain
  suffices text.toList = Nat.toDigits 10 (Nat.ofDigitChars 10 (Numeral.sign text.toList).2 0) by
    rw [← this, String.ofList_toList]
  generalize text.toList = digits at all some positive plain ⊢
  rcases Numeral.sign_cases digits with ⟨rest, rfl, sign⟩ | ⟨rest, rfl, sign⟩ | sign <;>
    rw [sign] at all some positive
  · cases positive
  · cases rest with
    | nil => exact (some rfl).elim
    | cons first rest => exact (Bool.eq_false_iff.1 plain (List.all_eq_true.2 all)).elim
  · rw [sign]
    refine (toDigits_ofDigitChars some all ?_).symm
    rintro (_ | ⟨second, rest⟩) rfl
    · rfl
    · have others : ∀ c ∈ second :: rest, c.isDigit := fun c listed =>
        all c (List.mem_cons_of_mem _ listed)
      exact (Bool.eq_false_iff.1 plain (List.all_eq_true.2 others)).elim

/-- The text of a position that fits a word is read as this position. -/
theorem position?_toString {position : Nat} (small : position < 2 ^ 64) :
    (Primitive.string (toString position)).position? = some position := by
  have all : ∀ c ∈ Nat.toDigits 10 position, c.isDigit := fun c listed =>
    Nat.isDigit_of_mem_toDigits (by decide) (by decide) listed
  obtain ⟨count, counted⟩ : ∃ count, (Nat.toDigits 10 position).length = count + 1 :=
    Nat.exists_eq_add_one.2 Nat.length_toDigits_pos
  have fits : (false || decide (twoTo 64 ≤ position)) = false :=
    decide_eq_false (Nat.not_le.2 small)
  unfold position?
  dsimp only
  rw [Nat.toString_eq_ofList_toDigits, String.toList_ofList, Numeral.sign_of_all all,
    Numeral.digits_of_all all, Nat.ofDigitChars_ten_toDigits, counted]
  dsimp only
  rw [if_neg (Bool.eq_false_iff.1 fits)]

/-- A number is read as a position when it is this integer. -/
theorem position?_number_eq_some_iff {value : Float} {position : Nat} :
    (Primitive.number value).position? = some position ↔
      toInt? value = some (position : Int) := by
  unfold position?
  dsimp only
  split
  · rename_i whole
    rw [whole, Option.some_inj, Option.some_inj]
    exact Int.ofNat_inj.symm
  · rename_i negative
    exact iff_of_false (Option.some_ne_none _).symm (negative position)

/-- A key that is not padded reads the position that it names. -/
theorem position?_eq_some_iff {key : Primitive} {position : Nat} (small : position < 2 ^ 53)
    (plain : key.isPadded = false) : key.position? = some position ↔ key.Names position := by
  cases key with
  | number value =>
    rw [position?_number_eq_some_iff, ← text_eq_toString_iff small]
    exact ⟨fun same => ⟨rfl, same⟩, And.right⟩
  | string text =>
    refine ⟨fun read => ⟨rfl, eq_toString_of_position? read plain⟩, fun named => ?_⟩
    obtain rfl : text = toString position := named.2
    exact position?_toString (by omega)
  | _ => exact iff_of_false nofun nofun

end Primitive

namespace Text

/-- A character of the basic plane is one unit. -/
theorem units_of_basic {c : Char} (basic : c.toNat < 0x10000) : units c = [c.toNat] :=
  if_pos basic

/-- Every character is at least one unit. -/
theorem units_ne_nil (c : Char) : units c ≠ [] := by
  unfold units
  dsimp only
  split <;> exact List.cons_ne_nil _ _

/-- A text has at least as many units as characters. -/
theorem length_le_unitCount (value : String) : value.toList.length ≤ unitCount value := by
  unfold unitCount allUnits
  induction value.toList with
  | nil => exact Nat.le_refl _
  | cons c rest ih =>
    have some := List.length_pos_iff.2 (units_ne_nil c)
    rw [List.flatMap_cons, List.length_append, List.length_cons]
    omega

/-- Where every character up to a position takes one unit, characters and units stand at the same
places. -/
theorem getElem?_flatMap_units {text : List Char} {position : Nat}
    (basic : ∀ c ∈ text.take (position + 1), c.toNat < 0x10000) :
    (text.flatMap units)[position]? = text[position]?.map Char.toNat := by
  induction text generalizing position with
  | nil => rfl
  | cons c rest ih =>
    rw [List.take_succ_cons] at basic
    obtain ⟨first, others⟩ := List.forall_mem_cons.1 basic
    rw [List.flatMap_cons, units_of_basic first]
    cases position with
    | zero => rfl
    | succ position => exact ih others

/-- The unit at such a position is the only one of the character there. -/
theorem exists_character {value : String} {position : Nat} (inside : position < unitCount value)
    (basic : ∀ c ∈ value.toList.take (position + 1), c.toNat < 0x10000) :
    ∃ c, value.toList[position]? = some c ∧ units c = [c.toNat] ∧
      (allUnits value)[position]? = some c.toNat := by
  have found : (allUnits value)[position]? = some (allUnits value)[position] :=
    List.getElem?_eq_getElem inside
  have places := getElem?_flatMap_units basic
  obtain ⟨c, standing, _⟩ := Option.map_eq_some_iff.1 (places.symm.trans found)
  have listed : c ∈ value.toList.take (position + 1) := by
    refine List.mem_of_getElem? (i := position) ?_
    rw [List.getElem?_take_of_lt (Nat.lt_succ_self position), standing]
  refine ⟨c, standing, units_of_basic (basic c listed), ?_⟩
  rw [standing] at places
  exact places

end Text

namespace Box

variable {key : Primitive}

/-- Any key but `length` reads an item of a list. -/
theorem read_list (other : key ≠ lengthKey) (items : List Box) (origin : Option Reference)
    (node : Reference) : (list items origin).read key node =
      (key.position?.bind (items[·]?)).getD (literal .undefined (some node)) :=
  if_neg other

/-- Any key but `length` reads a character of a text. -/
theorem read_text (other : key ≠ lengthKey) (value : String) (origin : Option Reference)
    (node : Reference) : (text value origin).read key node =
      ((key.position?.bind (value.toList[·]?)).map fun c =>
        text (String.singleton c) (some node)).getD (literal .undefined (some node)) := by
  refine (if_neg other).trans ?_
  cases key.position?.bind (value.toList[·]?) <;> rfl

/-- The number of places of a list or text: of its items or of its sixteen-bit units. -/
def count? : Box → Option Nat
  | list items _ => some items.length
  | literal (.string value) _ => some (Text.unitCount value)
  | _ => none

/-- Whether a box is the item of a list at a position, or a text of the one unit that a text has
there. -/
def IsElement (position : Nat) (element : Box) : Box → Prop
  | list items _ => items[position]? = some element
  | literal (.string value) _ => ∃ part origin unit, element = .literal (.string part) origin ∧
      Text.allUnits part = [unit] ∧ (Text.allUnits value)[position]? = some unit
  | _ => False

/-- Whether a box is a list, or a text whose characters up to a position take one unit each. -/
def isBasic (position : Nat) : Box → Bool
  | list .. => true
  | literal (.string value) _ => (value.toList.take (position + 1)).all fun c => c.toNat < 0x10000
  | _ => false

end Box

namespace Primitive

variable {key : Primitive} {count : Nat}

/-- A key that names a position reads what stands there. -/
theorem bind_position?_of_names {α : Type} {position : Nat} (small : position < 2 ^ 53)
    (plain : key.isPadded = false) (named : key.Names position) (items : List α) :
    key.position?.bind (items[·]?) = items[position]? := by
  rw [(position?_eq_some_iff small plain).2 named, Option.bind_some]

/-- A key that names no position of a list reads nothing from it. -/
theorem bind_position?_eq_none {α : Type} {items : List α} (small : count ≤ 2 ^ 53)
    (plain : key.isPadded = false) (fits : items.length ≤ count)
    (unnamed : ∀ position < count, ¬ key.Names position) :
    key.position?.bind (items[·]?) = none := by
  rw [Option.bind_eq_none_iff]
  intro position read
  rw [List.getElem?_eq_none_iff]
  by_contra inside
  have bounded : position < count := by omega
  exact unnamed position bounded ((position?_eq_some_iff (by omega) plain).1 read)

end Primitive

/-- The length of a list or text is the number of its places; a key that names one of them reads
what stands there, and any other key reads as undefined. -/
theorem read_position (whole : Box) (count : Nat) (key : Primitive) (node : Reference)
    (counted : whole.count? = some count) (small : count ≤ 2 ^ 53) (other : key ≠ .string "length")
    (plain : key.isPadded = false)
    (basic : ∀ position < count, key.Names position → whole.isBasic position = true) :
    (∃ length, whole.read (.string "length") node = .literal (.number length) (some node) ∧
      Number.toInt? length = some (count : Int)) ∧
    (∀ position < count, key.Names position → (whole.read key node).IsElement position whole) ∧
    ((∀ position < count, ¬ key.Names position) →
      whole.read key node = .literal .undefined (some node)) := by
  cases whole with
  | list items origin =>
    obtain rfl : items.length = count := Option.some_inj.1 counted
    have read := Box.read_list other items origin node
    refine ⟨⟨_, rfl, toInt?_ofNat small⟩, fun position inside named => ?_, fun unnamed => ?_⟩
    · rw [read, Primitive.bind_position?_of_names (by omega) plain named,
        List.getElem?_eq_getElem inside]
      exact List.getElem?_eq_getElem inside
    · rw [read, Primitive.bind_position?_eq_none small plain (Nat.le_refl _) unnamed,
        Option.getD_none]
  | literal value origin =>
    cases value with
    | string value =>
      obtain rfl : Text.unitCount value = count := Option.some_inj.1 counted
      have read : (Box.literal (.string value) origin).read key node = _ :=
        Box.read_text other value origin node
      refine ⟨⟨_, rfl, toInt?_ofNat small⟩, fun position inside named => ?_, fun unnamed => ?_⟩
      · have narrow := List.all_eq_true.1 (basic position inside named)
        obtain ⟨c, standing, single, unit⟩ :=
          Text.exists_character inside fun c listed => of_decide_eq_true (narrow c listed)
        rw [read, Primitive.bind_position?_of_names (by omega) plain named, standing]
        refine ⟨String.singleton c, some node, c.toNat, rfl, ?_, unit⟩
        rw [Text.allUnits, String.toList_singleton, List.flatMap_singleton, single]
      · have short := Text.length_le_unitCount value
        rw [read, Primitive.bind_position?_eq_none small plain short unnamed, Option.map_none,
          Option.getD_none]
    | _ => cases counted
  | _ => cases counted

/-- The second character of a text whose third one takes two units. -/
theorem read_position_text :
    let node : Reference := ⟨⟨"/a.ts"⟩, ⟨16, 24⟩, .expr⟩
    let whole := Box.text "ab😀" none
    let key := Primitive.number (.ofNat 1)
    whole.count? = some 4 ∧ 4 ≤ 2 ^ 53 ∧ key ≠ .string "length" ∧ key.isPadded = false ∧
      (∀ position < 4, key.Names position → whole.isBasic position = true) ∧
      key.Names 1 ∧ (whole.read key node).IsElement 1 whole := by
  intro node whole key
  have counted : whole.count? = some 4 := by decide +kernel
  have other : key ≠ .string "length" := by decide +kernel
  have plain : key.isPadded = false := by decide +kernel
  have basic : ∀ position < 4, key.Names position → whole.isBasic position = true := by
    decide +kernel
  have named : key.Names 1 := by decide +kernel
  exact ⟨counted, by decide, other, plain, basic, named,
    (read_position whole 4 key node counted (by decide) other plain basic).2.1 1 (by decide) named⟩

/-- A numeral with a superfluous zero reads an item, and behind a character of two units another
character than the one at the place is read. -/
theorem not_read_position :
    let node : Reference := ⟨⟨"/a.ts"⟩, ⟨16, 24⟩, .expr⟩
    let pair := Box.list [.text "x" none, .text "y" none] none
    let padded := Primitive.string "01"
    let wide := Box.text "😀b" none
    let key := Primitive.number (.ofNat 2)
    (pair.count? = some 2 ∧ (∀ position < 2, ¬ padded.Names position) ∧
      pair.read padded node = .text "y" none) ∧
    (wide.count? = some 3 ∧ key.Names 2 ∧ (Text.allUnits "😀b")[2]? = some 'b'.toNat ∧
      wide.read key node = .literal .undefined (some node)) := by
  intro node pair padded wide key
  exact ⟨⟨by decide +kernel, by decide +kernel, by rfl⟩,
    by decide +kernel, by decide +kernel, by decide +kernel, by rfl⟩

end Glean
