import Mathlib.Data.Nat.Digits.Defs
import Glean.Proofs.Number.Conversion
import Glean.Proofs.Number.Digits

/-!
# The grammar of numerals

Numerals as the language has them, by the form of the text and the value it denotes. `unsigned?`
reads exactly the decimal ones (`isDecimal_of_unsigned?`, `unsigned?_of_isDecimal`), and `parse?`
takes some words for numbers besides (`parse?_cases`).
-/

namespace Glean.Number.Numeral

open Nat (ofDigitChars)

/-! ### Decimal numerals -/

/-- One or more digits. -/
structure AreDigits (text : List Char) : Prop where
  /-- There is one. -/
  some : text ≠ []
  /-- There is nothing else. -/
  all : ∀ c ∈ text, c.isDigit

/-- A power of ten behind a decimal. -/
inductive IsPower : List Char → ℤ → Prop
  | absent : IsPower [] 0
  | bare {mark : Char} {text : List Char} (marked : mark = 'e' ∨ mark = 'E')
      (digits : AreDigits text) : IsPower (mark :: text) (ofDigitChars 10 text 0)
  | plus {mark : Char} {text : List Char} (marked : mark = 'e' ∨ mark = 'E')
      (digits : AreDigits text) : IsPower (mark :: '+' :: text) (ofDigitChars 10 text 0)
  | minus {mark : Char} {text : List Char} (marked : mark = 'e' ∨ mark = 'E')
      (digits : AreDigits text) : IsPower (mark :: '-' :: text) (-(ofDigitChars 10 text 0 : ℤ))

/-- The value of the digits behind a point. -/
def fraction (places : List Char) : ℚ := ofDigitChars 10 places 0 / 10 ^ places.length

/-- A decimal numeral without a sign and its value. -/
inductive IsDecimal : List Char → ℚ → Prop
  | whole {whole rest : List Char} {power : ℤ} (digits : AreDigits whole)
      (scaled : IsPower rest power) :
      IsDecimal (whole ++ rest) (ofDigitChars 10 whole 0 * 10 ^ power)
  | point {whole places rest : List Char} {power : ℤ} (digits : AreDigits whole)
      (behind : ∀ c ∈ places, c.isDigit) (scaled : IsPower rest power) :
      IsDecimal (whole ++ '.' :: (places ++ rest))
        ((ofDigitChars 10 whole 0 + fraction places) * 10 ^ power)
  | fraction {places rest : List Char} {power : ℤ} (digits : AreDigits places)
      (scaled : IsPower rest power) :
      IsDecimal ('.' :: (places ++ rest)) (fraction places * 10 ^ power)

/-- A text that does not start with a digit. -/
def StartsOther (text : List Char) : Prop := ∀ c ∈ text.head?, c.isDigit = false

/-- Digits are read up to a text that does not start with one. -/
theorem digits_append {text rest : List Char} (all : ∀ c ∈ text, c.isDigit)
    (other : StartsOther rest) (value count : Nat) :
    digits value count (text ++ rest) =
      (ofDigitChars 10 text value, count + text.length, rest) := by
  have none : rest.takeWhile Char.isDigit = [] ∧ rest.dropWhile Char.isDigit = rest := by
    cases rest with
    | nil => exact ⟨rfl, rfl⟩
    | cons c rest =>
      have stop := other c rfl
      exact ⟨List.takeWhile_cons_of_neg (by rw [stop]; decide),
        List.dropWhile_cons_of_neg (by rw [stop]; decide)⟩
  rw [digits_eq, List.takeWhile_append_of_pos all, List.dropWhile_append_of_pos all, none.1, none.2,
    List.append_nil]

/-- What is left behind read digits does not start with one. -/
theorem startsOther_dropWhile (text : List Char) : StartsOther (text.dropWhile Char.isDigit) := by
  intro c first
  have stop := List.head?_dropWhile_not Char.isDigit text
  rw [Option.mem_def] at first
  rw [first] at stop
  simpa using stop

/-- A text splits where the digits end. -/
theorem exists_digits (text : List Char) : ∃ digits rest, text = digits ++ rest ∧
    (∀ c ∈ digits, c.isDigit) ∧ StartsOther rest := by
  refine ⟨text.takeWhile Char.isDigit, text.dropWhile Char.isDigit,
    List.takeWhile_append_dropWhile.symm, fun c listed => List.mem_takeWhile_imp listed,
    startsOther_dropWhile text⟩

/-- A power is read from digits behind its mark and sign. -/
theorem power?_of_mark {mark : Char} {rest text : List Char} {negative : Bool}
    (marked : mark = 'e' ∨ mark = 'E') (signed : sign rest = (negative, text)) {power : ℤ} :
    power? (mark :: rest) = some power ↔ AreDigits text ∧
      power = if negative then -(ofDigitChars 10 text 0 : ℤ) else ofDigitChars 10 text 0 := by
  unfold power?
  simp only [if_pos marked, signed]
  by_cases digits : AreDigits text
  · have counted : text.length = (text.length - 1) + 1 := by
      have some := List.length_pos_iff.2 digits.some
      omega
    rw [digits_of_all digits.all, counted]
    simp only [Option.some_inj, digits, true_and]
    exact eq_comm
  · simp only [digits, false_and, iff_false]
    intro read
    split at read
    · cases read
    · rename_i value count counted found
      obtain ⟨all, -, rfl⟩ := all_of_digits found
      exact digits ⟨fun none => counted (by rw [none]; rfl), all⟩
    · cases read

/-- The powers that are read are those of the grammar. -/
theorem power?_eq_some_iff {text : List Char} {power : ℤ} :
    power? text = some power ↔ IsPower text power := by
  constructor
  · intro read
    cases text with
    | nil =>
      cases read
      exact .absent
    | cons mark rest =>
      by_cases marked : mark = 'e' ∨ mark = 'E'
      · rcases sign_cases rest with ⟨text, rfl, signed⟩ | ⟨text, rfl, signed⟩ | signed
        · obtain ⟨digits, rfl⟩ := (power?_of_mark marked signed).1 read
          exact .minus marked digits
        · obtain ⟨digits, rfl⟩ := (power?_of_mark marked signed).1 read
          exact .plus marked digits
        · obtain ⟨digits, rfl⟩ := (power?_of_mark marked signed).1 read
          exact .bare marked digits
      · rw [power?, if_neg marked] at read
        cases read
  · intro scaled
    cases scaled with
    | absent => rfl
    | bare marked digits =>
      exact (power?_of_mark marked (sign_of_all digits.all)).2 ⟨digits, rfl⟩
    | plus marked digits => exact (power?_of_mark marked rfl).2 ⟨digits, rfl⟩
    | minus marked digits => exact (power?_of_mark marked rfl).2 ⟨digits, rfl⟩

/-- A power does not start with a digit or a point. -/
theorem IsPower.startsOther {text : List Char} {power : ℤ} (scaled : IsPower text power) :
    StartsOther text ∧ text.head? ≠ some '.' := by
  cases scaled with
  | absent => exact ⟨nofun, nofun⟩
  | bare marked | plus marked | minus marked =>
    rcases marked with rfl | rfl
    · exact ⟨by simp [StartsOther], by simp⟩
    · exact ⟨by simp [StartsOther], by simp⟩

/-- Digits with others behind them. -/
theorem ofDigitChars_places (whole places : List Char) :
    (ofDigitChars 10 places (ofDigitChars 10 whole 0) : ℚ) =
      (ofDigitChars 10 whole 0 + fraction places) * 10 ^ places.length := by
  rw [Nat.ofDigitChars_eq_ofDigitChars_zero, fraction]
  push_cast
  field_simp

/-- Without a point the units are the digits. -/
theorem unsigned?_of_whole {whole rest : List Char} (all : ∀ c ∈ whole, c.isDigit)
    (other : StartsOther rest) (pointless : rest.head? ≠ some '.') :
    unsigned? (whole ++ rest) = if whole = [] then none
      else (power? rest).map fun power => (ofDigitChars 10 whole 0, power) := by
  unfold unsigned?
  rw [digits_append all other]
  dsimp only
  split
  · exact absurd rfl pointless
  · simp only [Nat.zero_add, Nat.add_zero, List.length_eq_zero_iff, Nat.cast_zero, sub_zero]

/-- With a point the digits on both sides are units. -/
theorem unsigned?_of_point {whole places rest : List Char} (all : ∀ c ∈ whole, c.isDigit)
    (behind : ∀ c ∈ places, c.isDigit) (other : StartsOther rest) :
    unsigned? (whole ++ '.' :: (places ++ rest)) = if whole = [] ∧ places = [] then none
      else (power? rest).map fun power =>
        (ofDigitChars 10 places (ofDigitChars 10 whole 0), power - (places.length : ℤ)) := by
  have stop : StartsOther ('.' :: (places ++ rest)) := by simp [StartsOther]
  unfold unsigned?
  rw [digits_append all stop]
  simp only [digits_append behind other, Nat.zero_add, Nat.add_eq_zero_iff,
    List.length_eq_zero_iff]

/-- A decimal numeral is read, and what is read denotes its value. -/
theorem unsigned?_of_isDecimal {text : List Char} {value : ℚ} (decimal : IsDecimal text value) :
    ∃ (units : Nat) (power : ℤ), unsigned? text = some (units, power) ∧
      value = units * 10 ^ power := by
  have shifted (units : ℚ) (places : List Char) (power : ℤ) :
      units * 10 ^ places.length * 10 ^ (power - places.length) = units * 10 ^ power := by
    rw [mul_assoc, ← zpow_natCast, ← zpow_add₀ (by norm_num)]
    congr 2
    omega
  cases decimal with
  | whole digits scaled =>
    obtain ⟨other, pointless⟩ := scaled.startsOther
    refine ⟨_, _, ?_, rfl⟩
    rw [unsigned?_of_whole digits.all other pointless, if_neg digits.some,
      power?_eq_some_iff.2 scaled]
    rfl
  | @point whole places rest power digits behind scaled =>
    refine ⟨ofDigitChars 10 places (ofDigitChars 10 whole 0), power - places.length, ?_, ?_⟩
    · rw [unsigned?_of_point digits.all behind scaled.startsOther.1,
        if_neg fun none => digits.some none.1, power?_eq_some_iff.2 scaled]
      rfl
    · rw [ofDigitChars_places, shifted]
  | @fraction places rest power digits scaled =>
    refine ⟨ofDigitChars 10 places (ofDigitChars 10 [] 0), power - places.length, ?_, ?_⟩
    · rw [← List.nil_append ('.' :: (places ++ rest)),
        unsigned?_of_point (fun _ listed => absurd listed List.not_mem_nil) digits.all
          scaled.startsOther.1,
        if_neg fun none => digits.some none.2, power?_eq_some_iff.2 scaled]
      rfl
    · rw [ofDigitChars_places, shifted, Nat.ofDigitChars_nil, Nat.cast_zero, zero_add]

/-- What is read is a decimal numeral and denotes its value. -/
theorem isDecimal_of_unsigned? {text : List Char} {units : Nat} {power : ℤ}
    (read : unsigned? text = some (units, power)) : IsDecimal text (units * 10 ^ power) := by
  obtain ⟨whole, rest, rfl, all, other⟩ := exists_digits text
  by_cases pointed : rest.head? = some '.'
  · obtain ⟨behind, rfl⟩ := List.head?_eq_some_iff.1 pointed
    obtain ⟨places, rest, rfl, digits, stop⟩ := exists_digits behind
    rw [unsigned?_of_point all digits stop] at read
    split at read
    · cases read
    rename_i some
    obtain ⟨power, scaled, same⟩ := Option.map_eq_some_iff.1 read
    cases same
    have scaled := power?_eq_some_iff.1 scaled
    have value : (ofDigitChars 10 places (ofDigitChars 10 whole 0) : ℚ) *
          10 ^ (power - places.length) =
        (ofDigitChars 10 whole 0 + fraction places) * 10 ^ power := by
      rw [ofDigitChars_places, mul_assoc, ← zpow_natCast, ← zpow_add₀ (by norm_num)]
      congr 2
      omega
    rw [value]
    by_cases bare : whole = []
    · rw [bare, Nat.ofDigitChars_nil, Nat.cast_zero, zero_add]
      exact .fraction ⟨fun none => some ⟨bare, none⟩, digits⟩ scaled
    · exact .point ⟨bare, all⟩ digits scaled
  · rw [unsigned?_of_whole all other pointed] at read
    split at read
    · cases read
    rename_i some
    obtain ⟨power, scaled, same⟩ := Option.map_eq_some_iff.1 read
    cases same
    exact .whole ⟨some, all⟩ (power?_eq_some_iff.1 scaled)

/-! ### Numerals -/

/-- The language's own word for infinity. -/
def ownWord : List Char := ['I', 'n', 'f', 'i', 'n', 'i', 't', 'y']

/-- The short word that is taken for infinity in any case. -/
def shortWord : List Char := ['i', 'n', 'f']

/-- The long word that is taken for infinity in any case. -/
def longWord : List Char := ['i', 'n', 'f', 'i', 'n', 'i', 't', 'y']

/-- A numeral without a sign and the number it stands for. -/
inductive IsUnsigned : List Char → Float → Prop
  | decimal {text : List Char} {value : ℚ} {number : Float} (literal : IsDecimal text value)
      (nearest : IsNearest number value) : IsUnsigned text number
  | infinite {text : List Char} (own : text = ownWord) : IsUnsigned text infinity

/-- A numeral with or without a sign and the number it stands for. -/
inductive IsSigned : List Char → Float → Prop
  | bare {text : List Char} {number : Float} (unsigned : IsUnsigned text number) :
      IsSigned text number
  | plus {text : List Char} {number : Float} (unsigned : IsUnsigned text number) :
      IsSigned ('+' :: text) number
  | minus {text : List Char} {number : Float} (unsigned : IsUnsigned text number) :
      IsSigned ('-' :: text) (-number)

/-- The base that a letter stands for behind a zero. -/
def base? : Char → Option Nat
  | 'x' | 'X' => some 16
  | 'o' | 'O' => some 8
  | 'b' | 'B' => some 2
  | _ => none

/-- The value of a digit in any base up to sixteen. -/
def digitValue? (c : Char) : Option Nat :=
  if c.isDigit then some (c.toNat - '0'.toNat)
  else if 'a' ≤ c ∧ c ≤ 'f' then some (c.toNat - 'a'.toNat + 10)
  else if 'A' ≤ c ∧ c ≤ 'F' then some (c.toNat - 'A'.toNat + 10)
  else none

/-- A numeral in another base and its value. -/
inductive IsRadix : List Char → Nat → Prop
  | digits {mark : Char} {base : Nat} {text : List Char} {values : List Nat}
      (based : base? mark = some base) (some : text ≠ [])
      (valued : text.map digitValue? = values.map Option.some)
      (proper : ∀ value ∈ values, value < base) :
      IsRadix ('0' :: mark :: text) (Nat.ofDigits base values.reverse)

/-- A text for infinity that is not the language's: another word, or its word in another case. -/
def IsWord (text : List Char) : Prop :=
  ((sign text).2.map Char.toLower = shortWord ∨ (sign text).2.map Char.toLower = longWord) ∧
    (sign text).2 ≠ ownWord

/-- A decimal numeral starts with a digit or a point. -/
theorem IsDecimal.head {text : List Char} {value : ℚ} (decimal : IsDecimal text value) :
    ∃ c rest, text = c :: rest ∧ (c.isDigit = true ∨ c = '.') := by
  have first {whole : List Char} (digits : AreDigits whole) (rest : List Char) :
      ∃ c more, whole ++ rest = c :: more ∧ (c.isDigit = true ∨ c = '.') := by
    cases whole with
    | nil => exact absurd rfl digits.some
    | cons c whole => exact ⟨c, whole ++ rest, rfl, .inl (digits.all c List.mem_cons_self)⟩
  cases decimal with
  | whole digits => exact first digits _
  | point digits => exact first digits _
  | fraction => exact ⟨'.', _, rfl, .inr rfl⟩

/-- A character without another case is its own lower case; the others are capital letters. -/
theorem toLower_cases (c : Char) : c.toLower = c ∨ 65 ≤ c.toNat ∧ c.toNat ≤ 90 := by
  unfold Char.toLower
  split
  · rename_i capital
    exact .inr capital
  · exact .inl rfl

/-- The codes of the digits are those from 48 to 57. -/
theorem bounds_of_isDigit {c : Char} (digit : c.isDigit = true) : 48 ≤ c.toNat ∧ c.toNat ≤ 57 := by
  simpa [Char.isDigit, UInt32.le_iff_toNat_le] using digit

/-- A digit or a point has no other case. -/
theorem toLower_of_head {c : Char} (first : c.isDigit = true ∨ c = '.') : c.toLower = c := by
  rcases toLower_cases c with same | capital
  · exact same
  · rcases first with digit | rfl
    · have bounds := bounds_of_isDigit digit
      omega
    · rfl

/-- A decimal numeral is no word in any case. -/
theorem IsDecimal.ne_word {text word : List Char} {letter : Char} {value : ℚ}
    (decimal : IsDecimal text value) (other : letter.isDigit = false) (pointless : letter ≠ '.') :
    text.map Char.toLower ≠ letter :: word := by
  obtain ⟨c, rest, rfl, first⟩ := decimal.head
  intro same
  obtain ⟨rfl, -⟩ := List.cons.inj same
  rw [toLower_of_head first] at other pointless
  rcases first with digit | point
  · rw [digit] at other
    cases other
  · exact pointless point

/-- A numeral is an unsigned one behind its sign. -/
theorem isSigned_iff {text : List Char} {number : Float} : IsSigned text number ↔
    ∃ magnitude, IsUnsigned (sign text).2 magnitude ∧
      number = if (sign text).1 then -magnitude else magnitude := by
  constructor
  · rintro (unsigned | unsigned | unsigned)
    · have bare : sign text = (false, text) := by
        cases unsigned with
        | decimal literal =>
          obtain ⟨c, rest, rfl, first⟩ := literal.head
          unfold sign
          split
          · rename_i same
            obtain ⟨rfl, -⟩ := List.cons.inj same
            rcases first with first | first <;> cases first
          · rename_i same
            obtain ⟨rfl, -⟩ := List.cons.inj same
            rcases first with first | first <;> cases first
          · rfl
        | infinite own =>
          rw [own]
          rfl
      rw [bare]
      exact ⟨number, unsigned, rfl⟩
    · exact ⟨number, unsigned, rfl⟩
    · exact ⟨_, unsigned, rfl⟩
  · rintro ⟨magnitude, unsigned, rfl⟩
    rcases sign_cases text with ⟨rest, rfl, signed⟩ | ⟨rest, rfl, signed⟩ | signed
    · rw [signed] at unsigned ⊢
      exact .minus unsigned
    · rw [signed] at unsigned ⊢
      exact .plus unsigned
    · rw [signed] at unsigned ⊢
      exact .bare unsigned

/-- What a numeral stands for is defined. -/
theorem IsUnsigned.defined {text : List Char} {number : Float} (unsigned : IsUnsigned text number) :
    number.isNaN = false := by
  cases unsigned with
  | decimal _ nearest => exact nearest.defined
  | infinite => decide +kernel

/-- A signed numeral has a number that is defined. -/
theorem IsSigned.defined {text : List Char} {number : Float} (signed : IsSigned text number) :
    number.isNaN = false := by
  cases signed with
  | bare unsigned | plus unsigned => exact unsigned.defined
  | minus unsigned => exact (isNaN_neg _).trans unsigned.defined

/-- A word for infinity is no numeral. -/
theorem IsWord.not_isSigned {text : List Char} (word : IsWord text) (number : Float) :
    ¬IsSigned text number := by
  intro signed
  obtain ⟨magnitude, unsigned, -⟩ := isSigned_iff.1 signed
  obtain ⟨lower, other⟩ := word
  cases unsigned with
  | decimal literal =>
    rcases lower with lower | lower
    · exact literal.ne_word (by decide) (by decide) lower
    · exact literal.ne_word (by decide) (by decide) lower
  | infinite own => exact other own

/-- The words of the grammar, character by character. -/
theorem words_toList : "inf".toList = shortWord ∧ "infinity".toList = longWord ∧
    "nan".toList = ['n', 'a', 'n'] := by
  decide +kernel

/-- What is read from a text: a numeral as the number it stands for, another word for infinity as
one, and nothing that is defined from other texts. -/
theorem parse?_cases (text : List Char) :
    (∃ number, parse? (String.ofList text) = some number ∧ IsSigned text number) ∨
    (IsWord text ∧ ∃ number, parse? (String.ofList text) = some number ∧ number.isNaN = false) ∨
    ((∀ number, ¬IsSigned text number) ∧ ¬IsWord text ∧
      ((parse? (String.ofList text)).getD notANumber).isNaN = true) := by
  obtain ⟨short, long, nan⟩ := words_toList
  obtain ⟨⟨negative, body⟩, signed⟩ : ∃ split, sign text = split := ⟨_, rfl⟩
  unfold parse?
  rw [String.toList_ofList]
  simp only [isSigned_iff, IsWord, signed, short, long, nan]
  -- Words come before numerals, as they do in the code.
  by_cases word : body.map Char.toLower = shortWord ∨ body.map Char.toLower = longWord
  · rw [if_pos word]
    by_cases own : body = ownWord
    · exact .inl ⟨_, rfl, infinity, .infinite own, rfl⟩
    · refine .inr (.inl ⟨⟨word, own⟩, _, rfl, ?_⟩)
      cases negative <;> decide +kernel
  rw [if_neg word]
  have notOwn : body ≠ ownWord := by
    rintro rfl
    exact word (.inr (by decide))
  have none (decimal : ∀ value, ¬IsDecimal body value) (number : Float) :
      ¬∃ magnitude, IsUnsigned body magnitude ∧
        number = if negative then -magnitude else magnitude := by
    rintro ⟨magnitude, unsigned, -⟩
    cases unsigned with
    | decimal literal => exact decimal _ literal
    | infinite own => exact notOwn own
  by_cases undefined : body.map Char.toLower = ['n', 'a', 'n']
  · refine .inr (.inr ⟨none fun value literal => literal.ne_word (by decide) (by decide) undefined,
      fun both => word both.1, ?_⟩)
    rw [if_pos undefined]
    cases negative <;> decide +kernel
  rw [if_neg undefined]
  cases read : unsigned? body with
  | some pair =>
    exact .inl ⟨_, rfl, _, .decimal (isDecimal_of_unsigned? read) (isNearest_value ..), rfl⟩
  | none =>
    have undefined : notANumber.isNaN = true := by decide +kernel
    refine .inr (.inr ⟨none fun value literal => ?_, fun both => word both.1, undefined⟩)
    obtain ⟨units, power, some, -⟩ := unsigned?_of_isDecimal literal
    rw [read] at some
    cases some

/-- The letter of a base is no part of a decimal numeral. -/
theorem mark_of_base? {mark : Char} {base : Nat} (based : base? mark = some base) :
    mark.isDigit = false ∧ mark ≠ '.' ∧ ¬(mark = 'e' ∨ mark = 'E') := by
  unfold base? at based
  split at based <;> first | decide | cases based

/-- A numeral in another base is no decimal one. -/
theorem IsRadix.not_isSigned {text : List Char} {value : Nat} (radix : IsRadix text value)
    (number : Float) : ¬IsSigned text number := by
  obtain ⟨based, -, -, -⟩ := radix
  rename_i mark base text values
  obtain ⟨other, pointless, unmarked⟩ := mark_of_base? based
  have unread : unsigned? (['0'] ++ mark :: text) = none := by
    have stop : StartsOther (mark :: text) := by
      rintro c ⟨⟩
      exact other
    have zero : ∀ c ∈ ['0'], c.isDigit := List.all_eq_true.1 rfl
    have head : (mark :: text).head? ≠ some '.' := fun same => pointless (Option.some_inj.1 same)
    rw [unsigned?_of_whole zero stop head, power?, if_neg unmarked]
    rfl
  intro signed
  obtain ⟨magnitude, unsigned, -⟩ := isSigned_iff.1 signed
  cases unsigned with
  | decimal literal =>
    obtain ⟨units, power, read, -⟩ := unsigned?_of_isDecimal literal
    cases unread.symm.trans read
  | infinite own => cases own

/-- A numeral in another base is no word. -/
theorem IsRadix.not_isWord {text : List Char} {value : Nat} (radix : IsRadix text value) :
    ¬IsWord text := by
  obtain ⟨⟩ := radix
  rintro ⟨same | same, -⟩
  · exact absurd (List.cons.inj same).1 (by decide)
  · exact absurd (List.cons.inj same).1 (by decide)

/-- A numeral with a radix is not empty. -/
theorem IsRadix.ne_nil {text : List Char} {value : Nat} (radix : IsRadix text value) :
    text ≠ [] := by
  obtain ⟨⟩ := radix
  exact List.cons_ne_nil _ _

/-- A word is not empty. -/
theorem IsWord.ne_nil {text : List Char} (word : IsWord text) : text ≠ [] := by
  rintro rfl
  rcases word.1 with same | same <;> cases same

/-! ### What numerals stand for -/

/-- A decimal numeral has one value. -/
theorem IsDecimal.unique {text : List Char} {v w : ℚ} (one : IsDecimal text v)
    (other : IsDecimal text w) : v = w := by
  obtain ⟨units, power, read, rfl⟩ := unsigned?_of_isDecimal one
  obtain ⟨units', power', read', rfl⟩ := unsigned?_of_isDecimal other
  rw [read, Option.some_inj, Prod.mk.injEq] at read'
  rw [read'.1, read'.2]

/-- The language's word for infinity is no decimal numeral. -/
theorem not_isDecimal_ownWord (value : ℚ) : ¬IsDecimal ownWord value := by
  intro decimal
  obtain ⟨c, rest, same, first⟩ := decimal.head
  obtain ⟨rfl, -⟩ := List.cons.inj same
  rcases first with digit | point
  · cases digit
  · exact absurd point (by decide)

/-- A numeral stands for one number. -/
theorem IsUnsigned.unique {text : List Char} {x y : Float} (one : IsUnsigned text x)
    (other : IsUnsigned text y) : x = y := by
  cases one with
  | decimal literal nearest =>
    cases other with
    | decimal literal' nearest' =>
      rw [literal'.unique literal] at nearest'
      exact nearest.unique nearest'
    | infinite own => exact absurd (own ▸ literal) (not_isDecimal_ownWord _)
  | infinite own =>
    cases other with
    | decimal literal => exact absurd (own ▸ literal) (not_isDecimal_ownWord _)
    | infinite => rfl

/-- A text is a signed numeral for one number only. -/
theorem IsSigned.unique {text : List Char} {x y : Float} (one : IsSigned text x)
    (other : IsSigned text y) : x = y := by
  obtain ⟨magnitude, unsigned, rfl⟩ := isSigned_iff.1 one
  obtain ⟨magnitude', unsigned', rfl⟩ := isSigned_iff.1 other
  rw [unsigned.unique unsigned']

/-- A numeral in another base has one value. -/
theorem IsRadix.unique {text : List Char} {v w : Nat} (one : IsRadix text v)
    (other : IsRadix text w) : v = w := by
  obtain ⟨based, -, valued, -⟩ := one
  obtain ⟨based', -, valued', -⟩ := other
  rw [based, Option.some_inj] at based'
  rw [valued] at valued'
  rw [based', List.map_injective_iff.2 (Option.some_injective Nat) valued']

/-! ### Characters of numerals -/

/-- Whether a character is one of those that texts for numbers are made of. -/
def isGraphic (c : Char) : Bool := 33 ≤ c.toNat && c.toNat ≤ 126

/-- The graphic characters are those with codes from 33 to 126. -/
theorem isGraphic_iff {c : Char} : isGraphic c = true ↔ 33 ≤ c.toNat ∧ c.toNat ≤ 126 := by
  simp [isGraphic]

/-- A digit is graphic. -/
theorem isGraphic_of_isDigit {c : Char} (digit : c.isDigit = true) : isGraphic c = true := by
  have bounds := bounds_of_isDigit digit
  rw [isGraphic_iff]
  omega

/-- A character whose lower case is a letter is graphic. -/
theorem isGraphic_of_toLower {c : Char} (letter : isGraphic c.toLower = true) :
    isGraphic c = true := by
  rcases toLower_cases c with same | capital
  · rwa [same] at letter
  · rw [isGraphic_iff]
    omega

/-- A digit of any radix is graphic. -/
theorem isGraphic_of_digitValue? {c : Char} {value : Nat} (valued : digitValue? c = some value) :
    isGraphic c = true := by
  unfold digitValue? at valued
  split at valued
  · rename_i digit
    exact isGraphic_of_isDigit digit
  · split at valued
    · rename_i letter
      obtain ⟨lower, upper⟩ : 97 ≤ c.toNat ∧ c.toNat ≤ 102 := letter
      rw [isGraphic_iff]
      omega
    · split at valued
      · rename_i letter
        obtain ⟨lower, upper⟩ : 65 ≤ c.toNat ∧ c.toNat ≤ 70 := letter
        rw [isGraphic_iff]
        omega
      · cases valued

/-- A text of graphic characters. -/
def AreGraphic (text : List Char) : Prop := ∀ c ∈ text, isGraphic c = true

/-- The empty text is graphic. -/
theorem areGraphic_nil : AreGraphic [] := fun _ listed => absurd listed List.not_mem_nil

/-- Graphic texts stay graphic when one is put behind the other. -/
theorem AreGraphic.append {left right : List Char} (one : AreGraphic left)
    (other : AreGraphic right) : AreGraphic (left ++ right) := fun c listed =>
  (List.mem_append.1 listed).elim (one c) (other c)

/-- A graphic text stays graphic behind a graphic character. -/
theorem AreGraphic.cons {first : Char} {rest : List Char} (one : isGraphic first = true)
    (other : AreGraphic rest) : AreGraphic (first :: rest) :=
  List.forall_mem_cons.2 ⟨one, other⟩

/-- A text of digits is graphic. -/
theorem areGraphic_of_digits {text : List Char} (all : ∀ c ∈ text, c.isDigit) : AreGraphic text :=
  fun c listed => isGraphic_of_isDigit (all c listed)

/-- The power of a numeral is graphic. -/
theorem IsPower.areGraphic {text : List Char} {power : ℤ} (scaled : IsPower text power) :
    AreGraphic text := by
  have mark {c : Char} (marked : c = 'e' ∨ c = 'E') : isGraphic c = true := by
    rcases marked with rfl | rfl <;> rfl
  cases scaled with
  | absent => exact areGraphic_nil
  | bare marked digits => exact .cons (mark marked) (areGraphic_of_digits digits.all)
  | plus marked digits | minus marked digits =>
    exact .cons (mark marked) (.cons rfl (areGraphic_of_digits digits.all))

/-- A decimal is graphic. -/
theorem IsDecimal.areGraphic {text : List Char} {value : ℚ} (decimal : IsDecimal text value) :
    AreGraphic text := by
  cases decimal with
  | whole digits scaled => exact (areGraphic_of_digits digits.all).append scaled.areGraphic
  | point digits behind scaled =>
    exact (areGraphic_of_digits digits.all).append
      (.cons rfl ((areGraphic_of_digits behind).append scaled.areGraphic))
  | fraction digits scaled =>
    exact .cons rfl ((areGraphic_of_digits digits.all).append scaled.areGraphic)

/-- A numeral without a sign is graphic. -/
theorem IsUnsigned.areGraphic {text : List Char} {number : Float}
    (unsigned : IsUnsigned text number) : AreGraphic text := by
  cases unsigned with
  | decimal literal => exact literal.areGraphic
  | infinite own =>
    rw [own]
    exact List.all_eq_true.1 rfl

/-- Numerals are made of graphic characters. -/
theorem IsSigned.areGraphic {text : List Char} {number : Float} (signed : IsSigned text number) :
    AreGraphic text := by
  cases signed with
  | bare unsigned => exact unsigned.areGraphic
  | plus unsigned | minus unsigned => exact .cons rfl unsigned.areGraphic

/-- Numerals in other bases are made of graphic characters. -/
theorem IsRadix.areGraphic {text : List Char} {value : Nat} (radix : IsRadix text value) :
    AreGraphic text := by
  obtain ⟨based, -, valued, -⟩ := radix
  refine .cons rfl (.cons ?_ fun c listed => ?_)
  · unfold base? at based
    split at based <;> first | rfl | cases based
  · have among := List.mem_map_of_mem (f := digitValue?) listed
    rw [valued] at among
    obtain ⟨value, -, same⟩ := List.mem_map.1 among
    exact isGraphic_of_digitValue? same.symm

/-- Words for infinity are made of graphic characters. -/
theorem IsWord.areGraphic {text : List Char} (word : IsWord text) : AreGraphic text := by
  have letters {body : List Char} (lower : AreGraphic (body.map Char.toLower)) : AreGraphic body :=
    fun c listed => isGraphic_of_toLower (lower _ (List.mem_map_of_mem listed))
  have short : AreGraphic shortWord := List.all_eq_true.1 rfl
  have long : AreGraphic longWord := List.all_eq_true.1 rfl
  have body : AreGraphic (sign text).2 := by
    rcases word.1 with same | same
    · exact letters (same ▸ short)
    · exact letters (same ▸ long)
  rcases sign_cases text with ⟨rest, rfl, signed⟩ | ⟨rest, rfl, signed⟩ | signed
  · exact .cons rfl (by rwa [signed] at body)
  · exact .cons rfl (by rwa [signed] at body)
  · rwa [signed] at body

end Glean.Number.Numeral
