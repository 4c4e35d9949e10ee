import Mathlib.Data.List.Induction
import Mathlib.Data.List.TakeWhile
import Mathlib.Tactic.Ring
import Glean.Number.Decimal
import Glean.Number.Numeral

/-!
# Digits of integers

Numerals are read digit by digit (`Numeral.digits`) and written in positional notation
(`Decimal.positional`). Read digits come back when they are written, unless they start with
superfluous zeros (`toDigits_ofDigitChars`), and a decimal is written with the digits of an integer
exactly when it is this integer (`Decimal.positional_of_whole`, `Decimal.whole_of_positional`).
-/

namespace Glean.Number

open Nat (toDigits ofDigitChars)

/-- Zeros behind the digits multiply by a power of ten. -/
theorem toDigits_mul_ten_pow {n : Nat} (positive : 0 < n) (count : Nat) :
    toDigits 10 (n * 10 ^ count) = toDigits 10 n ++ List.replicate count '0' := by
  induction count with
  | zero => simp
  | succ count ih =>
    have some : 0 < n * 10 ^ count := Nat.mul_pos positive (Nat.pow_pos (by decide))
    have next := Nat.toDigits_append_toDigits (by decide : 1 < 10) some (by decide : 0 < 10)
    rw [Nat.toDigits_zero, Nat.add_zero] at next
    rw [Nat.pow_succ, ← Nat.mul_assoc, Nat.mul_comm _ 10, ← next, ih, List.replicate_succ',
      List.append_assoc]

/-- Numerals are made of digits. -/
theorem not_mem_toDigits {c : Char} (other : c.isDigit = false) (n : Nat) : c ∉ toDigits 10 n := by
  intro listed
  have digit := Nat.isDigit_of_mem_toDigits (by decide) (by decide) listed
  rw [other] at digit
  cases digit

/-- Different numbers have different digits. -/
theorem toDigits_inj {m n : Nat} (same : toDigits 10 m = toDigits 10 n) : m = n := by
  rw [← Nat.ofDigitChars_ten_toDigits (n := m), same, Nat.ofDigitChars_ten_toDigits]

/-- A digit is the digit of its value. -/
theorem digitChar_of_isDigit {c : Char} (digit : c.isDigit) :
    c.toNat - '0'.toNat < 10 ∧ (c.toNat - '0'.toNat).digitChar = c := by
  have bounds : 48 ≤ c.toNat ∧ c.toNat ≤ 57 := by
    simpa [Char.isDigit, UInt32.le_iff_toNat_le] using digit
  have small : c.toNat - '0'.toNat < 10 := by
    change c.toNat - 48 < 10
    omega
  refine ⟨small, Char.toNat_inj.1 ?_⟩
  rw [Nat.toNat_digitChar_of_lt_ten small]
  change 48 + (c.toNat - 48) = c.toNat
  omega

/-- Digits that do not start with a superfluous zero are those of their value. -/
theorem toDigits_ofDigitChars {digits : List Char} (some : digits ≠ [])
    (all : ∀ c ∈ digits, c.isDigit) (lead : ∀ rest, digits = '0' :: rest → rest = []) :
    toDigits 10 (ofDigitChars 10 digits 0) = digits := by
  -- A numeral grows at its end, so the last digit is taken off.
  induction digits using List.reverseRecOn with
  | nil => exact (some rfl).elim
  | append_singleton digits last ih =>
    obtain ⟨small, same⟩ := digitChar_of_isDigit (all last (by simp))
    rw [Nat.ofDigitChars_append, Nat.ofDigitChars_cons, Nat.ofDigitChars_nil]
    cases digits with
    | nil =>
      rw [Nat.ofDigitChars_nil, Nat.mul_zero, Nat.zero_add, Nat.toDigits_of_lt_base small, same]
      rfl
    | cons first rest =>
      have first_ne : first ≠ '0' := by
        rintro rfl
        simpa using lead (rest ++ [last]) rfl
      have before := ih (by simp) (fun c listed => all c (List.mem_append_left _ listed))
        fun _ zero => (first_ne (List.cons.inj zero).1).elim
      have positive : 0 < ofDigitChars 10 (first :: rest) 0 := by
        refine Nat.pos_of_ne_zero fun zero => first_ne ?_
        rw [zero, Nat.toDigits_zero] at before
        exact (List.cons.inj before).1.symm
      rw [← Nat.toDigits_append_toDigits (by decide) positive small, before,
        Nat.toDigits_of_lt_base small, same]

namespace Numeral

/-- Digits are read up to the first character that is none. -/
theorem digits_eq (value count : Nat) (text : List Char) :
    digits value count text = (ofDigitChars 10 (text.takeWhile Char.isDigit) value,
      count + (text.takeWhile Char.isDigit).length, text.dropWhile Char.isDigit) := by
  induction text generalizing value count with
  | nil => simp [digits]
  | cons c rest ih =>
    unfold digits
    split
    · rename_i digit
      rw [ih, List.takeWhile_cons_of_pos digit, List.dropWhile_cons_of_pos digit,
        Nat.ofDigitChars_cons, List.length_cons, Nat.add_assoc, Nat.add_comm 1]
    · rename_i other
      rw [List.takeWhile_cons_of_neg other, List.dropWhile_cons_of_neg other]
      rfl

/-- A text of digits is read as a whole. -/
theorem digits_of_all {text : List Char} (all : ∀ c ∈ text, c.isDigit) :
    digits 0 0 text = (ofDigitChars 10 text 0, text.length, []) := by
  rw [digits_eq, List.takeWhile_eq_self_iff.2 all, List.dropWhile_eq_nil_iff.2 all, Nat.zero_add]

/-- What is read as a whole is a text of digits. -/
theorem all_of_digits {text : List Char} {value count : Nat}
    (read : digits 0 0 text = (value, count, [])) :
    (∀ c ∈ text, c.isDigit) ∧ value = ofDigitChars 10 text 0 ∧ count = text.length := by
  have all : ∀ c ∈ text, c.isDigit := by
    rw [digits_eq] at read
    exact List.dropWhile_eq_nil_iff.1 (congrArg (·.2.2) read)
  rw [digits_of_all all] at read
  cases read
  exact ⟨all, rfl, rfl⟩

/-- The text is the sign and what is behind it. -/
theorem sign_cases (text : List Char) :
    (∃ rest, text = '-' :: rest ∧ sign text = (true, rest)) ∨
    (∃ rest, text = '+' :: rest ∧ sign text = (false, rest)) ∨ sign text = (false, text) := by
  unfold sign
  split
  · exact .inl ⟨_, rfl, rfl⟩
  · exact .inr (.inl ⟨_, rfl, rfl⟩)
  · exact .inr (.inr rfl)

/-- Digits have no sign. -/
theorem sign_of_all {digits : List Char} (all : ∀ c ∈ digits, c.isDigit) :
    sign digits = (false, digits) := by
  rcases sign_cases digits with ⟨rest, rfl, _⟩ | ⟨rest, rfl, _⟩ | sign
  · have minus := all '-' (List.mem_cons_self ..)
    cases minus
  · have plus := all '+' (List.mem_cons_self ..)
    cases plus
  · exact sign

end Numeral

namespace Decimal

variable {decimal : Decimal} {whole : Nat}

/-- The significant digits are the digits without some zeros at the end. -/
theorem significant_spec (decimal : Decimal) :
    ∃ zeros, toDigits 10 decimal.digits = decimal.significant.1 ++ List.replicate zeros '0' ∧
      decimal.significant.2 = decimal.exponent + decimal.significant.1.length + zeros := by
  unfold significant
  dsimp only
  generalize toDigits 10 decimal.digits = digits
  let zeros := (digits.reverse.takeWhile (· == '0')).reverse
  have split : digits = (digits.reverse.dropWhile (· == '0')).reverse ++ zeros := by
    rw [← List.reverse_append, List.takeWhile_append_dropWhile, List.reverse_reverse]
  have same : zeros = List.replicate zeros.length '0' := by
    refine List.eq_replicate_iff.2 ⟨rfl, fun c listed => ?_⟩
    have taken := List.all_takeWhile (p := (· == '0')) (l := digits.reverse)
    exact beq_iff_eq.1 (List.all_eq_true.1 taken c (List.mem_reverse.1 listed))
  refine ⟨zeros.length, by rw [← same]; exact split, ?_⟩
  have length := congrArg List.length split
  rw [List.length_append] at length
  rw [length]
  push_cast
  ring

/-- A whole number of units that are integers is written with the digits of the integer. -/
theorem positional_of_whole (positive : 0 < decimal.digits) (natural : 0 ≤ decimal.exponent)
    (same : decimal.digits * 10 ^ decimal.exponent.toNat = whole) :
    positional decimal.significant.1 decimal.significant.2 = toDigits 10 whole := by
  obtain ⟨zeros, digits, point⟩ := significant_spec decimal
  have some : 0 < (toDigits 10 decimal.digits).length := Nat.length_toDigits_pos
  rw [digits, List.length_append, List.length_replicate] at some
  rw [← same, toDigits_mul_ten_pow positive, digits]
  generalize decimal.significant.1 = kept at point some ⊢
  have behind : decimal.significant.2.toNat - kept.length = zeros + decimal.exponent.toNat := by
    omega
  unfold positional
  rw [if_neg (by omega)]
  dsimp only
  rw [if_pos (by omega), behind, List.append_assoc, List.replicate_append_replicate]

/-- What is written with the digits of an integer has its value. -/
theorem whole_of_positional
    (written : positional decimal.significant.1 decimal.significant.2 = toDigits 10 whole) :
    decimal.digits * 10 ^ decimal.exponent.toNat = whole * 10 ^ (-decimal.exponent).toNat := by
  obtain ⟨zeros, digits, point⟩ := significant_spec decimal
  have bare := not_mem_toDigits (c := '.') (by decide) whole
  rw [← written] at bare
  generalize decimal.significant.1 = kept at digits point written bare
  generalize decimal.significant.2 = place at point written bare
  unfold positional at written bare
  split at written
  · rename_i low
    simp [low] at bare
  rename_i high
  rw [if_neg high] at bare
  dsimp only at written bare
  split at written
  · rename_i enough
    have value := congrArg (ofDigitChars 10 · 0) digits
    have valueWhole := congrArg (ofDigitChars 10 · 0) written
    simp only [Nat.ofDigitChars_ten_toDigits, Nat.ofDigitChars_append,
      Nat.ofDigitChars_replicate_zero] at value valueWhole
    rw [value, ← valueWhole]
    generalize ofDigitChars 10 kept 0 = number
    have balanced : 10 ^ zeros * 10 ^ decimal.exponent.toNat =
        10 ^ (place.toNat - kept.length) * 10 ^ (-decimal.exponent).toNat := by
      rw [← Nat.pow_add, ← Nat.pow_add]
      congr 1
      omega
    rw [Nat.mul_right_comm, balanced, Nat.mul_right_comm]
  · rename_i more
    simp [more] at bare

/-- An exponent is written with a letter. -/
theorem scientific_ne (digits : List Char) (point : Int) (whole : Nat) :
    scientific digits point ≠ toDigits 10 whole := by
  intro written
  refine not_mem_toDigits (c := 'e') (by decide) whole ?_
  rw [← written]
  simp [scientific]

end Decimal

end Glean.Number
