import Mathlib.Data.Int.ModEq
import Glean.Box.Operators
import Glean.Proofs.Number.Position

/-!
# Complements

The complement of a number is that of its integer part, which the language wraps into a word of
thirty-two bits. Here the integer part is first cut off at the ends of a word of sixty-four bits, so
that the result is the one of the language between these ends; before them and behind them it is the
same for all numbers (`unary_complement`).
-/

namespace Glean

open Number

/-- The integer part of a number; an infinity and an undefined number count as zero. -/
def wholePart (number : Float) : Int := (truncate? number).getD 0

/-- The word of thirty-two bits whose complement is taken. -/
def complementedWord (number : Float) : Int := wrap32 (saturate64 number)

/-- The complement of a number is the number of the complement of its word. -/
theorem complement_eq (number : Float) :
    Primitive.complement number = .ofInt (-complementedWord number - 1) := by
  rw [Primitive.complement, complementedWord]
  congr 1
  omega

/-- A word of thirty-two bits lies around zero. -/
theorem wrap32_bounds (value : Int) : -2 ^ 31 ≤ wrap32 value ∧ wrap32 value < 2 ^ 31 := by
  have lower := Int.le_bmod (x := value) (m := 2 ^ 32) (by decide)
  have upper := Int.bmod_lt (x := value) (m := 2 ^ 32) (by decide)
  unfold wrap32
  rw [twoTo_eq]
  omega

/-- Wrapping changes an integer by a multiple of the number of words. -/
theorem wrap32_modEq (value : Int) : wrap32 value ≡ value [ZMOD 2 ^ 32] := by
  unfold wrap32
  rw [twoTo_eq]
  exact Int.bmod_emod

/-- The complement of a word is a number that is an integer. -/
theorem toInt?_complement (number : Float) :
    toInt? (Primitive.complement number) = some (-complementedWord number - 1) := by
  have bounds := wrap32_bounds (saturate64 number)
  rw [complement_eq]
  apply toInt?_ofInt
  unfold complementedWord
  omega

/-- A sign leaves the magnitude as it is. -/
theorem natAbs_signed (negative : Bool) (magnitude : Nat) :
    (signed negative magnitude).natAbs = magnitude := by
  cases negative <;> simp only [signed, if_true, Bool.false_eq_true, if_false, Int.natAbs_neg,
    Int.natAbs_natCast]

section Parts

variable {x : Float}

/-- An integer part beyond the words of sixty-four bits is a multiple of `2 ^ 11`, for the exponent is
so large. -/
theorem dvd_wholePart (large : 2 ^ 63 ≤ (wholePart x).natAbs) : 2 ^ 11 ∣ wholePart x := by
  unfold wholePart truncate? at large ⊢
  cases denoted : exact x with
  | finite negative significand exponent =>
    obtain ⟨most, -⟩ := exact_bounds denoted
    simp only [denoted, Option.getD_some, natAbs_signed, twoTo_eq] at large
    have coarse : 11 ≤ exponent := by
      by_contra fine
      have scale : 2 ^ exponent.toNat ≤ 2 ^ 10 := Nat.pow_le_pow_right (by decide) (by omega)
      have product : significand * 2 ^ exponent.toNat < 2 ^ 53 * 2 ^ 10 :=
        Nat.mul_lt_mul_of_lt_of_le most scale (by decide)
      have quotient := Nat.div_le_self (significand * 2 ^ exponent.toNat) (2 ^ (-exponent).toNat)
      omega
    have none : (-exponent).toNat = 0 := by omega
    have factor : 2 ^ 11 ∣ significand * 2 ^ exponent.toNat :=
      Dvd.dvd.mul_left (pow_dvd_pow 2 (by omega)) significand
    have whole : (2 ^ 11 : Int) ∣ (significand * 2 ^ exponent.toNat : Nat) := by
      exact_mod_cast factor
    simp only [none, twoTo_eq, Nat.pow_zero, Nat.div_one, Option.getD_some]
    cases negative
    · exact whole
    · exact (Int.dvd_neg).2 whole
  | _ => exact dvd_zero _

/-- What is cut off: the integer part at both ends, and the infinities, which have none, become
these ends. -/
theorem saturate64_cases (x : Float) :
    (exact x = .infinite false ∧ wholePart x = 0 ∧ saturate64 x = 2 ^ 63 - 1) ∨
    (exact x = .infinite true ∧ wholePart x = 0 ∧ saturate64 x = -2 ^ 63) ∨
    (exact x ≠ .infinite false ∧
      saturate64 x = max (-2 ^ 63) (min (2 ^ 63 - 1) (wholePart x))) := by
  unfold saturate64 wholePart truncate?
  cases exact x with
  | notANumber => exact .inr (.inr ⟨nofun, rfl⟩)
  | infinite negative =>
    cases negative
    · exact .inl ⟨rfl, rfl, rfl⟩
    · exact .inr (.inl ⟨rfl, rfl, rfl⟩)
  | finite negative significand exponent => exact .inr (.inr ⟨nofun, rfl⟩)

/-- The word that is complemented is the wrapped integer part but for numbers beyond the words of
sixty-four bits; above these it is minus one, and below them zero. -/
theorem complementedWord_cases (x : Float) :
    (complementedWord x ≡ wholePart x [ZMOD 2 ^ 32] ↔
      exact x ≠ .infinite false ∧ wholePart x < 2 ^ 63 ∧
        (-2 ^ 63 ≤ wholePart x ∨ 2 ^ 32 ∣ wholePart x)) ∧
    (exact x = .infinite false ∨ 2 ^ 63 ≤ wholePart x → complementedWord x = -1) ∧
    (wholePart x < -2 ^ 63 → complementedWord x = 0) := by
  have bounds := wrap32_bounds (saturate64 x)
  have wrapped : wrap32 (saturate64 x) % 2 ^ 32 = saturate64 x % 2 ^ 32 :=
    wrap32_modEq (saturate64 x)
  have multiple := dvd_wholePart (x := x)
  unfold complementedWord Int.ModEq
  rcases saturate64_cases x with
    ⟨above, none, cut⟩ | ⟨below, none, cut⟩ | ⟨inside, cut⟩
  · rw [cut] at wrapped bounds ⊢
    refine ⟨iff_of_false (by omega) fun other => other.1 above, fun _ => by omega, by omega⟩
  · have inside : exact x ≠ .infinite false := by
      rw [below]
      nofun
    rw [cut] at wrapped bounds ⊢
    refine ⟨iff_of_true (by omega) ⟨inside, by omega, .inl (by omega)⟩, fun high => ?_, by omega⟩
    rcases high with other | high
    · exact absurd other inside
    · omega
  · rw [cut] at wrapped bounds ⊢
    simp only [inside, ne_eq, not_false_eq_true, true_and, false_or]
    omega

end Parts

/-- The complement of a literal, whatever its value is, is the complement of a word of thirty-two
bits. The word is that of the integer part, as the language has it, exactly when the number is not
the infinity above and the integer part fits a word of sixty-four bits, or is below these and a
multiple of the number of words. All numbers above have the complement zero, and all finite numbers
below minus one. -/
theorem unary_complement (node : Reference) (value : Primitive) (origin : Option Reference) :
    ∃ (result : Float) (word : Int),
      Box.unary .complement node (.literal value origin) = .literal (.number result) (some node) ∧
      toInt? result = some (-word - 1) ∧ -2 ^ 31 ≤ word ∧ word < 2 ^ 31 ∧
      (word ≡ wholePart value.toNumber [ZMOD 2 ^ 32] ↔
        exact value.toNumber ≠ .infinite false ∧ wholePart value.toNumber < 2 ^ 63 ∧
          (-2 ^ 63 ≤ wholePart value.toNumber ∨ 2 ^ 32 ∣ wholePart value.toNumber)) ∧
      (exact value.toNumber = .infinite false ∨ 2 ^ 63 ≤ wholePart value.toNumber → word = -1) ∧
      (wholePart value.toNumber < -2 ^ 63 → word = 0) := by
  obtain ⟨lower, upper⟩ := wrap32_bounds (saturate64 value.toNumber)
  exact ⟨Primitive.complement value.toNumber, complementedWord value.toNumber, rfl,
    toInt?_complement value.toNumber, lower, upper, complementedWord_cases value.toNumber⟩

/-- Above the words of sixty-four bits the complement is zero, and not that of the wrapped integer
part. -/
theorem not_unary_complement :
    ¬∀ (node : Reference) (value : Primitive) (origin : Option Reference),
      ∃ (result : Float) (word : Int),
        Box.unary .complement node (.literal value origin) =
          .literal (.number result) (some node) ∧
        toInt? result = some (-word - 1) ∧ -2 ^ 31 ≤ word ∧ word < 2 ^ 31 ∧
        word ≡ wholePart value.toNumber [ZMOD 2 ^ 32] := by
  intro wraps
  obtain ⟨result, word, computed, whole, -, -, wrapped⟩ :=
    wraps ⟨⟨"/a.ts"⟩, ⟨1, 6⟩, .expr⟩ (.number 1e20) none
  have denoted : exact 1e20 = .finite false 6103515625000000 14 := by decide +kernel
  have part : wholePart 1e20 = 10 ^ 20 := by
    simp only [wholePart, truncate?, denoted]
    rfl
  have zero : toInt? (Primitive.complement 1e20) = some 0 := by decide +kernel
  change Box.literal (.number (Primitive.complement 1e20)) _ = _ at computed
  rw [Box.literal.injEq, Primitive.number.injEq] at computed
  rw [← computed.1, zero, Option.some_inj] at whole
  change word ≡ wholePart 1e20 [ZMOD 2 ^ 32] at wrapped
  rw [part] at wrapped
  unfold Int.ModEq at wrapped
  omega

end Glean
