import Glean.Primitive
import Glean.Proofs.Number.Grammar

/-!
# Numbers that texts stand for

The language converts a text to a number by a grammar: nothing but white space is zero, a numeral
between white space is the number it stands for, and any other text is undefined (`Converts`). The
conversion here takes another set of blank characters, words for infinity that are no numerals, and
no numerals in other bases; apart from texts in which one of these shows it is the language's
(`converts_toNumber_iff`).
-/

namespace Glean

open Number Number.Numeral

/-! ### The language's conversion -/

/-- White space and line ends of the language. -/
def isSpace (c : Char) : Bool :=
  let code := c.toNat
  (0x9 ≤ code && code ≤ 0xD) || code == 0x20 || code == 0xA0 || code == 0x1680 ||
    (0x2000 ≤ code && code ≤ 0x200A) || code == 0x2028 || code == 0x2029 || code == 0x202F ||
    code == 0x205F || code == 0x3000 || code == 0xFEFF

/-- A text without the characters of some kind at both ends. -/
def stripped (blank : Char → Bool) (text : List Char) : List Char :=
  ((text.dropWhile blank).reverse.dropWhile blank).reverse

/-- A numeral of the language and the number it stands for. -/
inductive IsNumeral (text : List Char) (number : Float) : Prop
  | decimal (signed : IsSigned text number)
  | radix {value : Nat} (digits : IsRadix text value) (nearest : IsNearest number value)

/-- The number to which the language converts a text. -/
inductive Converts (text : String) (number : Float) : Prop
  | blank (nothing : stripped isSpace text.toList = []) (zero : number = 0)
  | numeral (literal : IsNumeral (stripped isSpace text.toList) number)
  | other (some : stripped isSpace text.toList ≠ [])
      (none : ∀ number, ¬IsNumeral (stripped isSpace text.toList) number)
      (undefined : number.isNaN = true)

/-- Where the conversion shows that it is not the language's: a numeral in another base, a word for
infinity, or characters at an end that are blank in one way only, around nothing or a decimal
numeral. -/
inductive Differs (text : String) : Prop
  | radix {value : Nat} (digits : IsRadix (stripped isSpace text.toList) value)
  | word (other : IsWord (stripped Text.isBlank text.toList))
  | ends (apart : stripped isSpace text.toList ≠ stripped Text.isBlank text.toList)
      (kept : stripped isSpace text.toList = [] ∨ stripped Text.isBlank text.toList = [] ∨
        ∃ number, IsSigned (stripped isSpace text.toList) number ∨
          IsSigned (stripped Text.isBlank text.toList) number)

/-- A numeral stands for one number. -/
theorem IsNumeral.unique {text : List Char} {x y : Float} (one : IsNumeral text x)
    (other : IsNumeral text y) : x = y := by
  cases one with
  | decimal signed =>
    cases other with
    | decimal signed' => exact signed.unique signed'
    | radix digits => exact absurd signed (digits.not_isSigned x)
  | radix digits nearest =>
    cases other with
    | decimal signed => exact absurd signed (digits.not_isSigned y)
    | radix digits' nearest' =>
      rw [digits'.unique digits] at nearest'
      exact nearest.unique nearest'

/-- A numeral has a number that is defined. -/
theorem IsNumeral.defined {text : List Char} {number : Float} (literal : IsNumeral text number) :
    number.isNaN = false := by
  cases literal with
  | decimal signed => exact signed.defined
  | radix _ nearest => exact nearest.defined

/-- A numeral is graphic. -/
theorem IsNumeral.areGraphic {text : List Char} {number : Float}
    (literal : IsNumeral text number) : AreGraphic text := by
  cases literal with
  | decimal signed => exact signed.areGraphic
  | radix digits => exact digits.areGraphic

/-- No text is a numeral. -/
theorem not_isNumeral_nil (number : Float) : ¬IsNumeral [] number := by
  rintro (signed | digits)
  · obtain ⟨magnitude, unsigned, -⟩ := isSigned_iff.1 signed
    cases unsigned with
    | decimal literal =>
      obtain ⟨c, rest, same, -⟩ := literal.head
      cases same
    | infinite own => cases own
  · exact digits.ne_nil rfl

/-- The language converts every text to one number. -/
theorem existsUnique_converts (text : String) : ∃! number, Converts text number := by
  by_cases nothing : stripped isSpace text.toList = []
  · refine ⟨0, .blank nothing rfl, fun number converts => ?_⟩
    rcases converts with ⟨-, zero⟩ | literal | ⟨some, -, -⟩
    · exact zero
    · exact absurd (nothing ▸ literal) (not_isNumeral_nil number)
    · exact absurd nothing some
  by_cases numeral : ∃ number, IsNumeral (stripped isSpace text.toList) number
  · obtain ⟨number, literal⟩ := numeral
    refine ⟨number, .numeral literal, fun other converts => ?_⟩
    rcases converts with ⟨empty, -⟩ | literal' | ⟨-, none, -⟩
    · exact absurd empty nothing
    · exact literal'.unique literal
    · exact absurd literal (none number)
  · rw [not_exists] at numeral
    have undefined : notANumber.isNaN = true := by decide +kernel
    refine ⟨notANumber, .other nothing numeral undefined, fun other converts => ?_⟩
    rcases converts with ⟨empty, -⟩ | literal | ⟨-, -, undefined'⟩
    · exact absurd empty nothing
    · exact absurd literal (numeral other)
    · exact eq_of_isNaN undefined' undefined

/-! ### Characters at the ends -/

/-- A graphic character is no space of the grammar. -/
theorem isSpace_of_isGraphic {c : Char} (graphic : isGraphic c = true) : isSpace c = false := by
  have bounds := isGraphic_iff.1 graphic
  simp [isSpace]
  omega

/-- A graphic character is not blank. -/
theorem isBlank_of_isGraphic {c : Char} (graphic : isGraphic c = true) :
    Text.isBlank c = false := by
  have bounds := isGraphic_iff.1 graphic
  simp [Text.isBlank]
  omega

section Stripped

variable {blank : Char → Bool} (kept : ∀ {c : Char}, isGraphic c = true → blank c = false)
include kept

/-- No graphic character is among those in front that are taken off. -/
theorem filter_dropWhile (text : List Char) :
    (text.dropWhile blank).filter isGraphic = text.filter isGraphic := by
  induction text with
  | nil => rfl
  | cons c rest ih =>
    by_cases dropped : blank c = true
    · have other : ¬isGraphic c = true := fun graphic => by
        rw [kept graphic] at dropped
        cases dropped
      rw [List.dropWhile_cons_of_pos dropped, List.filter_cons_of_neg other, ih]
    · rw [List.dropWhile_cons_of_neg dropped]

/-- When only graphic characters are left, they are all there were. -/
theorem stripped_of_areGraphic {text : List Char} (graphic : AreGraphic (stripped blank text)) :
    stripped blank text = text.filter isGraphic := by
  calc stripped blank text = (stripped blank text).filter isGraphic :=
        (List.filter_eq_self.2 graphic).symm
    _ = text.filter isGraphic := by
        unfold stripped
        rw [List.filter_reverse, filter_dropWhile kept, List.filter_reverse,
          filter_dropWhile kept, List.reverse_reverse]

end Stripped

/-- When only graphic characters are left both ways, the same ones are. -/
theorem stripped_eq {text : List Char} (standard : AreGraphic (stripped isSpace text))
    (own : AreGraphic (stripped Text.isBlank text)) :
    stripped isSpace text = stripped Text.isBlank text := by
  rw [stripped_of_areGraphic isSpace_of_isGraphic standard,
    stripped_of_areGraphic isBlank_of_isGraphic own]

/-! ### Both conversions -/

/-- The conversion of a text depends on what is left between blank characters. -/
theorem toNumber_string (text : String) : (Primitive.string text).toNumber =
    if stripped Text.isBlank text.toList = [] then 0
    else (parse? (String.ofList (stripped Text.isBlank text.toList))).getD notANumber := by
  change (if (String.ofList (stripped Text.isBlank text.toList)).isEmpty = true then 0
    else (parse? (String.ofList (stripped Text.isBlank text.toList))).getD notANumber) = _
  have empty : (String.ofList (stripped Text.isBlank text.toList)).isEmpty = true ↔
      stripped Text.isBlank text.toList = [] := by
    simp
  simp only [empty]

/-- What the conversion makes of a text. -/
theorem toNumber_cases (text : String) :
    (stripped Text.isBlank text.toList = [] ∧ (Primitive.string text).toNumber = 0) ∨
    IsSigned (stripped Text.isBlank text.toList) (Primitive.string text).toNumber ∨
    (IsWord (stripped Text.isBlank text.toList) ∧
      (Primitive.string text).toNumber.isNaN = false) ∨
    (stripped Text.isBlank text.toList ≠ [] ∧
      (∀ number, ¬IsSigned (stripped Text.isBlank text.toList) number) ∧
      ¬IsWord (stripped Text.isBlank text.toList) ∧
      (Primitive.string text).toNumber.isNaN = true) := by
  rw [toNumber_string]
  generalize stripped Text.isBlank text.toList = body
  by_cases nothing : body = []
  · exact .inl ⟨nothing, if_pos nothing⟩
  rw [if_neg nothing]
  rcases parse?_cases body with ⟨number, read, signed⟩ | ⟨word, number, read, defined⟩ |
    ⟨unsigned, other, undefined⟩
  · rw [read]
    exact .inr (.inl signed)
  · rw [read]
    exact .inr (.inr (.inl ⟨word, defined⟩))
  · exact .inr (.inr (.inr ⟨nothing, unsigned, other, undefined⟩))

/-- A numeral in another base stands for a number. -/
theorem isNumeral_of_isRadix {text : List Char} {value : Nat} (radix : IsRadix text value) :
    ∃ number, IsNumeral text number := by
  have nearest := isNearest_value value 0
  rw [zpow_zero, mul_one] at nearest
  exact ⟨_, .radix radix nearest⟩

section Texts

variable {text : String}

/-- Characters that are blank in one way only leave something that is not graphic, at one end or the
other. -/
theorem not_areGraphic_of_apart
    (apart : stripped isSpace text.toList ≠ stripped Text.isBlank text.toList) :
    ¬(AreGraphic (stripped isSpace text.toList) ∧
      AreGraphic (stripped Text.isBlank text.toList)) := fun both =>
  apart (stripped_eq both.1 both.2)

/-- The conversion is defined for nothing, numerals and words between blank characters. -/
theorem defined_of_kept (kept : stripped Text.isBlank text.toList = [] ∨
    (∃ number, IsSigned (stripped Text.isBlank text.toList) number) ∨
      IsWord (stripped Text.isBlank text.toList)) :
    (Primitive.string text).toNumber.isNaN = false := by
  rcases toNumber_cases text with ⟨-, zero⟩ | signed | ⟨-, defined⟩ | ⟨some, unsigned, other, -⟩
  · rw [zero]
    decide +kernel
  · exact signed.defined
  · exact defined
  · rcases kept with nothing | ⟨number, signed⟩ | word
    · exact absurd nothing some
    · exact absurd signed (unsigned number)
    · exact absurd word other

/-- The conversion is undefined where graphic characters are left in the language's way only. -/
theorem undefined_of_apart
    (apart : stripped isSpace text.toList ≠ stripped Text.isBlank text.toList)
    (standard : AreGraphic (stripped isSpace text.toList)) :
    (Primitive.string text).toNumber.isNaN = true := by
  have other : ¬AreGraphic (stripped Text.isBlank text.toList) := fun own =>
    not_areGraphic_of_apart apart ⟨standard, own⟩
  rcases toNumber_cases text with ⟨nothing, -⟩ | signed | ⟨word, -⟩ | ⟨-, -, -, undefined⟩
  · exact absurd (nothing ▸ areGraphic_nil) other
  · exact absurd signed.areGraphic other
  · exact absurd word.areGraphic other
  · exact undefined

/-- The conversion is undefined for numerals in another base. -/
theorem undefined_of_isRadix {value : Nat}
    (digits : IsRadix (stripped isSpace text.toList) value) :
    (Primitive.string text).toNumber.isNaN = true := by
  by_cases same : stripped isSpace text.toList = stripped Text.isBlank text.toList
  · rw [same] at digits
    rcases toNumber_cases text with ⟨nothing, -⟩ | signed | ⟨word, -⟩ | ⟨-, -, -, undefined⟩
    · exact absurd nothing digits.ne_nil
    · exact absurd signed (digits.not_isSigned _)
    · exact absurd word digits.not_isWord
    · exact undefined
  · exact undefined_of_apart same digits.areGraphic

/-- The language takes nothing that is left in its way for a number where graphic characters are
left in the other way only. -/
theorem not_isNumeral_of_apart
    (apart : stripped isSpace text.toList ≠ stripped Text.isBlank text.toList)
    (own : AreGraphic (stripped Text.isBlank text.toList)) :
    stripped isSpace text.toList ≠ [] ∧
      ∀ number, ¬IsNumeral (stripped isSpace text.toList) number := by
  have other : ¬AreGraphic (stripped isSpace text.toList) := fun standard =>
    not_areGraphic_of_apart apart ⟨standard, own⟩
  exact ⟨fun nothing => other (nothing ▸ areGraphic_nil), fun _ literal => other literal.areGraphic⟩

/-- The language takes no word for a number but its own. -/
theorem not_isNumeral_of_isWord (word : IsWord (stripped Text.isBlank text.toList)) :
    stripped isSpace text.toList ≠ [] ∧
      ∀ number, ¬IsNumeral (stripped isSpace text.toList) number := by
  by_cases same : stripped isSpace text.toList = stripped Text.isBlank text.toList
  · rw [same]
    refine ⟨word.ne_nil, fun number literal => ?_⟩
    cases literal with
    | decimal signed => exact word.not_isSigned number signed
    | radix digits => exact digits.not_isWord word
  · exact not_isNumeral_of_apart same word.areGraphic

/-- A text that the language takes for a number is not converted to an undefined one. -/
theorem not_converts_of_undefined (undefined : (Primitive.string text).toNumber.isNaN = true)
    (kept : stripped isSpace text.toList = [] ∨
      ∃ number, IsNumeral (stripped isSpace text.toList) number) :
    ¬Converts text (Primitive.string text).toNumber := by
  rintro (⟨-, zero⟩ | literal | ⟨some, none, -⟩)
  · have defined : (0 : Float).isNaN = false := by decide +kernel
    rw [zero, defined] at undefined
    cases undefined
  · rw [literal.defined] at undefined
    cases undefined
  · rcases kept with nothing | ⟨number, literal⟩
    · exact some nothing
    · exact none number literal

/-- A text that the language does not take for a number is not converted to a defined one. -/
theorem not_converts_of_defined (defined : (Primitive.string text).toNumber.isNaN = false)
    (other : stripped isSpace text.toList ≠ [] ∧
      ∀ number, ¬IsNumeral (stripped isSpace text.toList) number) :
    ¬Converts text (Primitive.string text).toNumber := by
  rintro (⟨nothing, -⟩ | literal | ⟨-, -, undefined⟩)
  · exact other.1 nothing
  · exact other.2 _ literal
  · rw [defined] at undefined
    cases undefined

/-- Where the conversion shows that it is not the language's, its result is another one. -/
theorem not_converts_of_differs (differs : Differs text) :
    ¬Converts text (Primitive.string text).toNumber := by
  cases differs with
  | radix digits =>
    exact not_converts_of_undefined (undefined_of_isRadix digits)
      (.inr (isNumeral_of_isRadix digits))
  | word other =>
    exact not_converts_of_defined (defined_of_kept (.inr (.inr other)))
      (not_isNumeral_of_isWord other)
  | ends apart kept =>
    rcases kept with nothing | nothing | ⟨number, signed | signed⟩
    · exact not_converts_of_undefined
        (undefined_of_apart apart (nothing ▸ areGraphic_nil)) (.inl nothing)
    · exact not_converts_of_defined (defined_of_kept (.inl nothing))
        (not_isNumeral_of_apart apart (nothing ▸ areGraphic_nil))
    · exact not_converts_of_undefined (undefined_of_apart apart signed.areGraphic)
        (.inr ⟨number, .decimal signed⟩)
    · exact not_converts_of_defined (defined_of_kept (.inr (.inl ⟨number, signed⟩)))
        (not_isNumeral_of_apart apart signed.areGraphic)

/-- Elsewhere the result is that of the language. -/
theorem converts_of_not_differs (alike : ¬Differs text) :
    Converts text (Primitive.string text).toNumber := by
  have ends (kept : stripped isSpace text.toList = [] ∨ stripped Text.isBlank text.toList = [] ∨
      ∃ number, IsSigned (stripped isSpace text.toList) number ∨
        IsSigned (stripped Text.isBlank text.toList) number) :
      stripped isSpace text.toList = stripped Text.isBlank text.toList := by
    by_contra apart
    exact alike (.ends apart kept)
  rcases toNumber_cases text with ⟨nothing, zero⟩ | signed | ⟨word, -⟩ |
    ⟨some, unsigned, -, undefined⟩
  · exact .blank ((ends (.inr (.inl nothing))).trans nothing) zero
  · have same := ends (.inr (.inr ⟨_, .inr signed⟩))
    rw [← same] at signed
    exact .numeral (.decimal signed)
  · exact absurd (.word word) alike
  · refine .other (fun nothing => ?_) (fun number literal => ?_) undefined
    · exact some ((ends (.inl nothing)).symm.trans nothing)
    · cases literal with
      | decimal signed =>
        have same := ends (.inr (.inr ⟨number, .inl signed⟩))
        exact unsigned number (same ▸ signed)
      | radix digits => exact alike (.radix digits)

end Texts

/-- Every text is converted to one number by the language, and by the conversion to this number
exactly when the text is none of those that show the differences. -/
theorem converts_toNumber_iff (text : String) :
    (∃! number, Converts text number) ∧
      (Converts text (Primitive.string text).toNumber ↔ ¬Differs text) :=
  ⟨existsUnique_converts text,
    fun converts differs => not_converts_of_differs differs converts, converts_of_not_differs⟩

/-- A numeral in another base, a word for infinity, a digit behind a byte order mark and one behind
a next-line character are not converted as the language converts them. -/
theorem not_converts_toNumber :
    ¬Converts "0x10" (Primitive.string "0x10").toNumber ∧
    ¬Converts "inf" (Primitive.string "inf").toNumber ∧
    ¬Converts "\uFEFF1" (Primitive.string "\uFEFF1").toNumber ∧
    ¬Converts "\u00851" (Primitive.string "\u00851").toNumber := by
  obtain ⟨one, digit⟩ : ∃ number, IsSigned ['1'] number :=
    ⟨_, .bare (.decimal (isDecimal_of_unsigned? rfl) (isNearest_value 1 0))⟩
  have sixteen : IsRadix ['0', 'x', '1', '0'] 16 :=
    @IsRadix.digits 'x' 16 ['1', '0'] [1, 0] rfl (by decide) rfl (by decide)
  have word : IsWord shortWord := ⟨.inl rfl, by decide⟩
  refine ⟨not_converts_of_differs (@Differs.radix _ 16 ?_), not_converts_of_differs (.word ?_),
    not_converts_of_differs (.ends ?_ (.inr (.inr ⟨one, .inl ?_⟩))),
    not_converts_of_differs (.ends ?_ (.inr (.inr ⟨one, .inr ?_⟩)))⟩
  · have left : stripped isSpace "0x10".toList = ['0', 'x', '1', '0'] := by decide +kernel
    rw [left]
    exact sixteen
  · have left : stripped Text.isBlank "inf".toList = shortWord := by decide +kernel
    rw [left]
    exact word
  · decide +kernel
  · have left : stripped isSpace "\uFEFF1".toList = ['1'] := by decide +kernel
    rw [left]
    exact digit
  · decide +kernel
  · have left : stripped Text.isBlank "\u00851".toList = ['1'] := by decide +kernel
    rw [left]
    exact digit

end Glean
