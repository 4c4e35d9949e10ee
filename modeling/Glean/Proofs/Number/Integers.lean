import Glean.Proofs.Number.Unpacked
import Glean.Proofs.Number.Shortest
import Glean.Proofs.Number.Digits

/-!
# Integers among the numbers

A number below `2 ^ 53` is written with the digits of an integer exactly when it is this integer:
`text_eq_toString_iff`.
-/

namespace Glean.Number

variable {number : Float} {whole : Nat}

/-- A text with a character that is no digit is no numeral. -/
theorem ne_toString_of_mem {text : String} {c : Char} (other : c.isDigit = false)
    (listed : c ∈ text.toList) (whole : Nat) : text ≠ toString whole := by
  rintro rfl
  rw [Nat.toString_eq_ofList_toDigits, String.toList_ofList] at listed
  exact not_mem_toDigits other whole listed

/-- Different numbers have different numerals. -/
theorem toString_inj {m n : Nat} (same : toString m = toString n) : m = n := by
  rw [Nat.toString_eq_ofList_toDigits, Nat.toString_eq_ofList_toDigits] at same
  exact toDigits_inj (String.ofList_injective same)

/-- Integers from one up to `2 ^ 53` have all their bits and at most as many behind the point. -/
theorem exponent_of_whole {significand : Nat} {exponent : Int} (some : 0 < whole)
    (small : whole < 2 ^ 53) (most : significand < 2 ^ 53)
    (complete : significand < 2 ^ 52 → exponent = -1074)
    (same : (Interval.around significand exponent).value =
      whole * (Interval.around significand exponent).scale) :
    -52 ≤ exponent ∧ exponent ≤ 0 := by
  have same : 4 * significand * 2 ^ (exponent - 2).toNat = whole * 2 ^ (2 - exponent).toNat := same
  have upper : exponent ≤ 0 := by
    by_contra coarse
    have units : 0 < 2 ^ (exponent - 2).toNat := Nat.two_pow_pos _
    have larger := Nat.mul_le_mul_left (4 * significand) units
    rcases eq_or_ne exponent 1 with rfl | more
    · rw [show 2 ^ (2 - (1 : Int)).toNat = 2 from rfl] at same
      omega
    · rw [show (2 - exponent).toNat = 0 by omega, Nat.pow_zero] at same
      omega
  refine ⟨?_, upper⟩
  rw [show (exponent - 2).toNat = 0 by omega, Nat.pow_zero, Nat.mul_one] at same
  have least : 2 ^ (2 - exponent).toNat ≤ 4 * significand := by
    rw [same]
    exact Nat.le_mul_of_pos_left _ some
  have bits : 2 ^ (2 - exponent).toNat < 2 ^ 55 := by omega
  have fewer := (Nat.pow_lt_pow_iff_right (by decide)).1 bits
  omega

section Positive

variable {significand : Nat} {exponent : Int}
  (denoted : exact number = .finite false significand exponent)

include denoted

/-- A positive number is an integer when it is so many units of its scale. -/
theorem toInt?_eq_some_iff : toInt? number = some (whole : Int) ↔
    (Interval.around significand exponent).value =
      whole * (Interval.around significand exponent).scale := by
  have scale : (Interval.around significand exponent).scale = 2 ^ (2 - exponent).toNat := rfl
  have value : (Interval.around significand exponent).value =
    4 * significand * 2 ^ (exponent - 2).toNat := rfl
  have units : toInt? number = some (whole : Int) ↔
      significand * 2 ^ exponent.toNat = whole * 2 ^ (-exponent).toNat := by
    have unit : 0 < 2 ^ (-exponent).toNat := Nat.two_pow_pos _
    simp only [toInt?, denoted, twoTo_eq, signed, Bool.false_eq_true, if_false]
    split
    · rename_i divides
      rw [Option.some_inj, Int.natCast_inj,
        Nat.div_eq_iff_eq_mul_left unit (Nat.dvd_of_mod_eq_zero divides)]
    · rename_i remains
      refine iff_of_false (Option.some_ne_none _).symm fun same => remains ?_
      rw [same, Nat.mul_mod_left]
  have balanced : 2 ^ exponent.toNat * 2 ^ (2 - exponent).toNat =
      4 * 2 ^ (exponent - 2).toNat * 2 ^ (-exponent).toNat := by
    rw [show 4 = 2 ^ 2 from rfl, ← Nat.pow_add, ← Nat.pow_add, ← Nat.pow_add]
    congr 1
    omega
  have fraction : 0 < 2 ^ (2 - exponent).toNat := Nat.two_pow_pos _
  have unit : 0 < 2 ^ (-exponent).toNat := Nat.two_pow_pos _
  have numbers : significand * 2 ^ exponent.toNat * 2 ^ (2 - exponent).toNat =
      4 * significand * 2 ^ (exponent - 2).toNat * 2 ^ (-exponent).toNat := by
    rw [Nat.mul_assoc, balanced]
    ring
  rw [units, scale, value, ← Nat.mul_left_inj fraction.ne', numbers, Nat.mul_right_comm whole,
    Nat.mul_left_inj unit.ne']

variable (positive : 0 < significand) (small : whole < 2 ^ 53)

include positive

/-- A positive number has the numeral of an integer as its text when its notation has the digits. -/
theorem text_of_positive : text number = toString whole ↔
    (if number.abs < 1e-6 || 1e21 ≤ number.abs then
        Decimal.scientific (shortest .away significand exponent).significant.1
          (shortest .away significand exponent).significant.2
      else Decimal.positional (shortest .away significand exponent).significant.1
        (shortest .away significand exponent).significant.2) = Nat.toDigits 10 whole := by
  rw [Nat.toString_eq_ofList_toDigits]
  simp only [text, denoted, if_neg positive.ne', Bool.false_eq_true, if_false]
  exact ⟨fun same => String.ofList_injective same, congrArg String.ofList⟩

include small

/-- The shortest decimal of a positive number is written as an integer is when it is this integer.
-/
theorem text_eq_toString_iff_of_positive :
    text number = toString whole ↔ toInt? number = some (whole : Int) := by
  obtain ⟨most, least, _, complete⟩ := exact_bounds denoted
  rw [text_of_positive denoted positive, toInt?_eq_some_iff denoted]
  constructor
  · intro written
    split at written
    · exact (Decimal.scientific_ne _ _ _ written).elim
    · have same := Decimal.whole_of_positional written
      exact value_of_shortest small positive most least complete same
  · intro same
    have some : 0 < whole := by
      refine Nat.pos_of_ne_zero ?_
      rintro rfl
      have value : 0 < (Interval.around significand exponent).value :=
        Nat.mul_pos (by omega) (Nat.two_pow_pos _)
      omega
    obtain ⟨lower, upper⟩ := exponent_of_whole some small most complete same
    have moderate := moderate_of_exact denoted (by omega) most lower upper
    obtain ⟨natural, digits⟩ := shortest_of_whole .away some small complete positive same
    rw [if_neg (Bool.eq_false_iff.1 moderate)]
    refine Decimal.positional_of_whole (Nat.pos_of_ne_zero fun none => ?_) natural digits
    rw [none, Nat.zero_mul] at digits
    omega

end Positive

/-- Both zeros are written as the integer zero. -/
theorem text_eq_toString_iff_of_zero {negative : Bool} {exponent : Int}
    (denoted : exact number = .finite negative 0 exponent) :
    text number = toString whole ↔ toInt? number = some (whole : Int) := by
  have zero : toInt? number = some 0 := by
    cases negative <;> simp [toInt?, denoted, signed]
  have written : text number = toString 0 := by
    simp only [text, denoted]
    rfl
  rw [written, zero, Option.some_inj]
  constructor
  · intro same
    rw [← toString_inj same]
    rfl
  · intro same
    rw [show whole = 0 by omega]

/-- A number below zero is no natural number. -/
theorem toInt?_ne_of_negative {significand : Nat} {exponent : Int}
    (denoted : exact number = .finite true significand exponent) (positive : 0 < significand)
    (whole : Nat) : toInt? number ≠ some (whole : Int) := by
  intro same
  have scaled : 0 < significand * 2 ^ exponent.toNat :=
    Nat.mul_pos positive (Nat.two_pow_pos _)
  simp only [toInt?, denoted, twoTo_eq, signed] at same
  split at same
  · rename_i divides
    have parts := Nat.div_add_mod (significand * 2 ^ exponent.toNat) (2 ^ (-exponent).toNat)
    rw [divides] at parts
    generalize significand * 2 ^ exponent.toNat / 2 ^ (-exponent).toNat = units at same parts
    rw [if_pos trivial, Option.some_inj] at same
    obtain rfl : units = 0 := by omega
    omega
  · cases same

/-- A number has the numeral of an integer below `2 ^ 53` as its text when it is this integer. -/
theorem text_eq_toString_iff (small : whole < 2 ^ 53) :
    text number = toString whole ↔ toInt? number = some (whole : Int) := by
  cases denoted : exact number with
  | notANumber =>
    have none : toInt? number = none := by simp [toInt?, denoted]
    have nan : text number = "NaN" := by simp [text, denoted]
    rw [nan, none]
    exact iff_of_false (ne_toString_of_mem (c := 'N') (by decide) (by decide) whole)
      (Option.some_ne_none _).symm
  | infinite negative =>
    have none : toInt? number = none := by simp [toInt?, denoted]
    rw [none]
    refine iff_of_false (ne_toString_of_mem (c := 'I') (by decide) ?_ whole)
      (Option.some_ne_none _).symm
    cases negative <;> simp [text, denoted]
  | finite negative significand exponent =>
    rcases Nat.eq_zero_or_pos significand with rfl | positive
    · exact text_eq_toString_iff_of_zero denoted
    cases negative with
    | false => exact text_eq_toString_iff_of_positive denoted positive small
    | true =>
      refine iff_of_false (ne_toString_of_mem (c := '-') (by decide) ?_ whole)
        (toInt?_ne_of_negative denoted positive whole)
      simp [text, denoted, positive.ne']

end Glean.Number
