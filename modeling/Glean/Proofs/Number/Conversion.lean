import Mathlib.Tactic.FieldSimp
import Glean.Number.Numeral
import Glean.Proofs.Number.Rounding

/-!
# Converting decimals

A decimal is converted through one product or one quotient of two numbers that are exact: the units
and the power of ten. What comes out is therefore rounded once and is the nearest number
(`isNearest_value`); decimals far outside the range of numbers become zero or infinity beforehand.
-/

namespace Glean.Number

open Float.Model (UnpackedFloat Format)
open Float.Model.UnpackedFloat

/-! ### Products and quotients -/

/-- A mantissa without anything behind it describes itself. -/
theorem describes_exact (mantissa : Nat) :
    Describes (.ofMantissaAndAccuracy mantissa .exact) mantissa := by
  refine ⟨0, le_rfl, one_pos, iff_of_false Bool.false_ne_true (not_not.2 rfl), ?_⟩
  change 2 * (mantissa : ℚ) = 2 * mantissa + ((0 : Nat) : ℚ) + 0
  push_cast
  ring

/-- A whole number with the accuracy of a fraction behind it describes their sum. -/
theorem describes_fraction (whole : Nat) {part parts : Nat} (proper : part < parts) :
    Describes (.ofMantissaAndAccuracy whole (accuracyOfFraction part parts))
      (whole + (part : ℚ) / parts) := by
  have unit : (0 : ℚ) < parts := by exact_mod_cast Nat.zero_lt_of_lt proper
  have below : (part : ℚ) / parts < 1 := (div_lt_one unit).2 (by exact_mod_cast proper)
  unfold accuracyOfFraction
  by_cases zero : part = 0
  · rw [if_pos zero, zero, Nat.cast_zero, zero_div, add_zero]
    exact describes_exact whole
  rw [if_neg zero]
  have some : (0 : ℚ) < part / parts := div_pos (by exact_mod_cast Nat.pos_of_ne_zero zero) unit
  -- The accuracy only tells on which side of one half the fraction lies.
  rcases lt_trichotomy (2 * part) parts with less | half | greater
  · have near : (part : ℚ) / parts < 1 / 2 := by
      rw [div_lt_div_iff₀ unit two_pos]
      have scaled : (2 * part : ℚ) < parts := by exact_mod_cast less
      linarith
    rw [Nat.compare_eq_lt.2 less]
    refine ⟨2 * (part / parts), by linarith, by linarith, iff_of_true rfl (by linarith), ?_⟩
    change 2 * ((whole : ℚ) + part / parts) = 2 * whole + ((0 : Nat) : ℚ) + 2 * (part / parts)
    push_cast
    ring
  · have middle : (part : ℚ) / parts = 1 / 2 := by
      rw [div_eq_div_iff unit.ne' two_ne_zero]
      have scaled : (2 * part : ℚ) = parts := by exact_mod_cast half
      linarith
    rw [Nat.compare_eq_eq.2 half, middle]
    refine ⟨0, le_rfl, one_pos, iff_of_false Bool.false_ne_true (not_not.2 rfl), ?_⟩
    change 2 * ((whole : ℚ) + 1 / 2) = 2 * whole + ((1 : Nat) : ℚ) + 0
    push_cast
    ring
  · have far : 1 / 2 < (part : ℚ) / parts := by
      rw [div_lt_div_iff₀ two_pos unit]
      have scaled : (parts : ℚ) < 2 * part := by exact_mod_cast greater
      linarith
    rw [Nat.compare_eq_gt.2 greater]
    refine ⟨2 * (part / parts) - 1, by linarith, by linarith, iff_of_true rfl (by linarith), ?_⟩
    change 2 * ((whole : ℚ) + part / parts) =
      2 * whole + ((1 : Nat) : ℚ) + (2 * (part / parts) - 1)
    push_cast
    ring

section Operations

variable {number : Float} {m₁ m₂ : Nat} {e₁ e₂ : ℤ} {one : 0 < m₁} {two : 0 < m₂}

/-- A product with all bits is the number nearest to the product of the factors. -/
theorem isNearest_of_mul (bits : 52 ≤ (m₁ * m₂).log2)
    (unpacked : number.toModel.unpack = unpack Format.binary64 (pack Format.binary64
      (UnpackedFloat.mul Format.binary64 (.finite .positive m₁ e₁ one)
        (.finite .positive m₂ e₂ two)))) :
    IsNearest number (m₁ * 2 ^ e₁ * (m₂ * 2 ^ e₂)) := by
  have scale : (2 : ℚ) ^ (e₁ + e₂) ≠ 0 := by positivity
  have product : (m₁ : ℚ) * 2 ^ e₁ * (m₂ * 2 ^ e₂) = (m₁ * m₂ : Nat) * 2 ^ (e₁ + e₂) := by
    rw [zpow_add₀ (by norm_num)]
    push_cast
    ring
  apply isNearest_of_describes _ _ unpacked
  · omega
  · rw [product, mul_div_cancel_right₀ _ scale]
    exact describes_exact (m₁ * m₂)

/-- The quotient that is computed has all bits, or the least exponent. -/
theorem divCore_bits (one : 0 < m₁) (two : 0 < m₂) {target : ℤ}
    (aim : target = min (e₁ - e₂) (max (m₁.log2 + e₁ - (m₂.log2 + e₂) - 53) (-1074)))
    (wide : -1074 < target) :
    52 ≤ (m₁ * 2 ^ (e₁ - e₂ - target).toNat / m₂).log2 := by
  obtain ⟨places, shift⟩ : ∃ places, places = (e₁ - e₂ - target).toNat := ⟨_, rfl⟩
  have enough : m₂.log2 + 53 ≤ m₁.log2 + places := by omega
  have quotient : 2 ^ 52 ≤ m₁ * 2 ^ places / m₂ := by
    rw [Nat.le_div_iff_mul_le two]
    calc 2 ^ 52 * m₂ ≤ 2 ^ 52 * 2 ^ (m₂.log2 + 1) := Nat.mul_le_mul_left _ Nat.lt_log2_self.le
      _ = 2 ^ (m₂.log2 + 53) := by rw [← Nat.pow_add]; congr 1; omega
      _ ≤ 2 ^ (m₁.log2 + places) := Nat.pow_le_pow_right two_pos enough
      _ = 2 ^ m₁.log2 * 2 ^ places := Nat.pow_add ..
      _ ≤ m₁ * 2 ^ places := Nat.mul_le_mul_right _ (Nat.log2_self_le one.ne')
  rw [← shift]
  exact (Nat.le_log2 (by omega)).2 quotient

/-- A quotient is the number nearest to the quotient of its operands. -/
theorem isNearest_of_div
    (unpacked : number.toModel.unpack = unpack Format.binary64 (pack Format.binary64
      (UnpackedFloat.div Format.binary64 (.finite .positive m₁ e₁ one)
        (.finite .positive m₂ e₂ two)))) :
    IsNearest number (m₁ * 2 ^ e₁ / (m₂ * 2 ^ e₂)) := by
  obtain ⟨target, aim⟩ : ∃ target, target =
      min (e₁ - e₂) (max (m₁.log2 + e₁ - (m₂.log2 + e₂) - 53) (-1074)) := ⟨_, rfl⟩
  obtain ⟨places, shift⟩ : ∃ places, places = (e₁ - e₂ - target).toNat := ⟨_, rfl⟩
  have bits := divCore_bits one two aim
  rw [← shift] at bits
  have computed : divCore Format.binary64 m₁ e₁ m₂ e₂ =
      (m₁ * 2 ^ places / m₂, target,
        accuracyOfFraction (m₁ * 2 ^ places % m₂) m₂) := by
    have same : min (e₁ - e₂) (Format.binary64.targetExponent
        (Float.Model.totalExponent m₁ e₁ - Float.Model.totalExponent m₂ e₂)) = target := by
      change min (e₁ - e₂) (max ((m₁.log2 : ℤ) + 1 + e₁ - (m₂.log2 + 1 + e₂) - 53) (-1074)) = target
      omega
    unfold divCore
    simp only [same, ← shift, Nat.shiftLeft_eq]
  have divisor : (m₂ : ℚ) ≠ 0 := by exact_mod_cast two.ne'
  have value : (m₁ : ℚ) * 2 ^ e₁ / (m₂ * 2 ^ e₂) / 2 ^ target =
      (m₁ * 2 ^ places / m₂ : Nat) + ((m₁ * 2 ^ places % m₂ : Nat) : ℚ) / m₂ := by
    have whole : ((m₁ * 2 ^ places / m₂ : Nat) : ℚ) * m₂ + (m₁ * 2 ^ places % m₂ : Nat) =
        m₁ * 2 ^ places := by
      exact_mod_cast Nat.div_add_mod' (m₁ * 2 ^ places) m₂
    have scale : (2 : ℚ) ^ e₁ = 2 ^ places * (2 ^ e₂ * 2 ^ target) := by
      rw [← zpow_natCast, ← zpow_add₀ (by norm_num), ← zpow_add₀ (by norm_num)]
      congr 1
      omega
    rw [← mul_div_cancel_right₀ ((m₁ * 2 ^ places / m₂ : Nat) : ℚ) divisor, ← add_div, whole,
      scale]
    field_simp
  refine @isNearest_of_describes (m₁ * 2 ^ places / m₂) target
    (accuracyOfFraction (m₁ * 2 ^ places % m₂) m₂) _ number ?_ ?_ ?_
  · by_cases wide : -1074 < target
    · have bits := bits wide
      omega
    · omega
  · rw [value]
    exact describes_fraction _ (Nat.mod_lt _ two)
  · rw [unpacked]
    unfold UnpackedFloat.div
    simp only [computed]
    rfl

end Operations

/-! ### Zero and infinity -/

/-- Zero is nearest to what is at most half the least number. -/
theorem isNearest_of_zero {number : Float} {x : ℚ} (least : 0 ≤ x) (small : x ≤ 2 ^ (-1075 : ℤ))
    (unpacked : number.toModel.unpack = .zero .positive) : IsNearest number x := by
  have scale : (0 : ℚ) < 2 ^ (-1074 : ℤ) := by positivity
  have half : (2 : ℚ) ^ (-1075 : ℤ) = 1 / 2 * 2 ^ (-1074 : ℤ) := by
    rw [show (-1075 : ℤ) = -1074 - 1 from rfl, zpow_sub_one₀ (by norm_num)]
    ring
  have part : x / 2 ^ (-1074 : ℤ) ≤ 1 / 2 := by
    rw [div_le_iff₀ scale, ← half]
    exact small
  have some : 0 ≤ x / 2 ^ (-1074 : ℤ) := div_nonneg least scale.le
  have rounded : IsRounded 0 (x / 2 ^ (-1074 : ℤ)) := by
    refine ⟨?_, fun _ => rfl⟩
    rw [Nat.cast_zero, zero_sub, abs_neg, abs_of_nonneg some]
    exact part
  have rounds : RoundsAt 0 (-1074) x :=
    ⟨rounded, by decide, le_rfl, fun wide => absurd wide (by decide)⟩
  exact rounds.isNearest_of_stored (by decide) unpacked

/-- Infinity is nearest to what is behind all numbers. -/
theorem isNearest_of_infinity {number : Float} {x : ℚ} (far : horizon ≤ x)
    (unpacked : number.toModel.unpack = .infinity .positive) : IsNearest number x := by
  have denoted : exact number = .infinite false := by
    rw [exact_eq, unpacked]
    rfl
  apply isNearest_of_horizon_le (isNaN_of_unpack unpacked rfl) _ far
  · rw [position, denoted]
    rfl
  · rw [denoted]
    rfl

/-! ### Scientific notation -/

/-- Powers of ten that are checked for are behind all numbers. -/
theorem horizon_le_of_large {units : Nat} {power : ℤ} (some : 0 < units) (large : 2048 < power) :
    horizon ≤ units * 10 ^ power := by
  have unit : (1 : ℚ) ≤ units := by exact_mod_cast some
  calc horizon = 2 ^ (1024 : ℤ) := horizon_eq
    _ ≤ 2 ^ power := zpow_le_zpow_right₀ (by norm_num) (by omega)
    _ ≤ 10 ^ power := zpow_le_zpow_left₀ (by omega) (by norm_num) (by norm_num)
    _ ≤ units * 10 ^ power := le_mul_of_one_le_left (by positivity) unit

/-- Powers of ten that are checked for are before all numbers. -/
theorem le_of_small {units : Nat} {power : ℤ} (small : power < -(2048 + (units.log2 : ℤ))) :
    units * (10 : ℚ) ^ power ≤ 2 ^ (-1075 : ℤ) := by
  have bits : (units : ℚ) ≤ 2 ^ ((units.log2 + 1 : Nat) : ℤ) := by
    rw [zpow_natCast]
    exact_mod_cast Nat.lt_log2_self.le
  have power_le : (10 : ℚ) ^ power ≤ 2 ^ power := by
    obtain ⟨places, rfl⟩ : ∃ places : Nat, power = -places := ⟨power.natAbs, by omega⟩
    rw [zpow_neg, zpow_neg, zpow_natCast, zpow_natCast]
    exact inv_anti₀ (by positivity) (pow_le_pow_left₀ (by norm_num) (by norm_num) places)
  calc units * (10 : ℚ) ^ power ≤ 2 ^ ((units.log2 + 1 : Nat) : ℤ) * 2 ^ power :=
        mul_le_mul bits power_le (by positivity) (by positivity)
    _ = 2 ^ (((units.log2 + 1 : Nat) : ℤ) + power) := (zpow_add₀ (by norm_num) _ _).symm
    _ ≤ 2 ^ (-1075 : ℤ) := zpow_le_zpow_right₀ (by norm_num) (by omega)

/-- Units times a power of ten, which the units are lengthened for, are rounded to the nearest
number. -/
theorem isNearest_of_multiple {number : Float} {units : Nat} {power : ℤ} (natural : 0 ≤ power)
    {lengthened : 0 < units <<< 53} {tens : 0 < 10 ^ power.toNat}
    (unpacked : number.toModel.unpack = unpack Format.binary64 (pack Format.binary64
      (UnpackedFloat.mul Format.binary64 (.finite .positive (units <<< 53) (-53) lengthened)
        (.finite .positive (10 ^ power.toNat) 0 tens)))) :
    IsNearest number (units * 10 ^ power) := by
  have length : 52 ≤ (units <<< 53 * 10 ^ power.toNat).log2 := by
    rw [Nat.shiftLeft_eq] at lengthened ⊢
    have some : 0 < units := Nat.pos_of_mul_pos_right lengthened
    have bits : 2 ^ 53 * 1 ≤ units * 2 ^ 53 * 10 ^ power.toNat :=
      Nat.mul_le_mul (Nat.le_mul_of_pos_left _ some) tens
    exact (Nat.le_log2 (by omega)).2 (by omega)
  have same : units * (10 : ℚ) ^ power = ((units <<< 53 : Nat) : ℚ) * 2 ^ (-53 : ℤ) *
      (((10 ^ power.toNat : Nat) : ℚ) * 2 ^ (0 : ℤ)) := by
    have whole : (10 : ℚ) ^ power = ((10 ^ power.toNat : Nat) : ℚ) := by
      rw [Nat.cast_pow, Nat.cast_ofNat, ← zpow_natCast, Int.toNat_of_nonneg natural]
    rw [Nat.shiftLeft_eq, whole, show (2 : ℚ) ^ (-53 : ℤ) = 1 / 2 ^ 53 by norm_num]
    push_cast
    ring
  rw [same]
  exact isNearest_of_mul length unpacked

/-- Units divided by a power of ten are rounded to the nearest number. -/
theorem isNearest_of_part {number : Float} {units : Nat} {power : ℤ} (negative : power < 0)
    {some : 0 < units} {tens : 0 < 10 ^ (-power).toNat}
    (unpacked : number.toModel.unpack = unpack Format.binary64 (pack Format.binary64
      (UnpackedFloat.div Format.binary64 (.finite .positive units 0 some)
        (.finite .positive (10 ^ (-power).toNat) 0 tens)))) :
    IsNearest number (units * 10 ^ power) := by
  have same : units * (10 : ℚ) ^ power =
      units * 2 ^ (0 : ℤ) / (((10 ^ (-power).toNat : Nat) : ℚ) * 2 ^ (0 : ℤ)) := by
    have whole : (10 : ℚ) ^ power = ((10 ^ (-power).toNat : Nat) : ℚ)⁻¹ := by
      rw [Nat.cast_pow, Nat.cast_ofNat, ← zpow_natCast, Int.toNat_of_nonneg (by omega), zpow_neg,
        inv_inv]
    rw [whole, zpow_zero, mul_one, mul_one, div_eq_mul_inv]
  rw [same]
  exact isNearest_of_div unpacked

/-- Units and a power of ten are converted to the nearest number through whole numbers of any size.
-/
theorem isNearest_of_ofScientific {number : Float} {units : Nat} {power : ℤ}
    (unpacked : number.toModel.unpack = unpack Format.binary64 (pack Format.binary64
      (UnpackedFloat.ofScientific Format.binary64 units power))) :
    IsNearest number (units * 10 ^ power) := by
  rw [UnpackedFloat.ofScientific] at unpacked
  by_cases zero : units = 0
  · rw [dif_pos zero] at unpacked
    rw [zero, Nat.cast_zero, zero_mul]
    exact isNearest_of_zero le_rfl (by positivity) unpacked
  rw [dif_neg zero] at unpacked
  by_cases large : power > 2 ^ Format.binary64.exponentBits
  · rw [if_pos large] at unpacked
    exact isNearest_of_infinity (horizon_le_of_large (Nat.pos_of_ne_zero zero) large)
      (unpacked.trans (unpack_packedInfinity .positive))
  rw [if_neg large] at unpacked
  by_cases small : power < -((2 ^ Format.binary64.exponentBits : Int) + units.log2)
  · rw [if_pos small] at unpacked
    exact isNearest_of_zero (by positivity) (le_of_small small) unpacked
  rw [if_neg small] at unpacked
  by_cases natural : 0 ≤ power
  · rw [if_pos natural] at unpacked
    exact isNearest_of_multiple natural unpacked
  · rw [if_neg natural] at unpacked
    exact isNearest_of_part (not_le.1 natural) unpacked

/-! ### Numerals -/

/-- The powers of ten that are kept at hand. -/
def powerOfTen (power : Fin 23) : Float := Float.exactlyRepresentablePowersOfTen[power]

/-- Whether a number is a power of ten with all bits. -/
def Exact.isTenTo (power : Nat) : Exact → Bool
  | .finite false m e =>
    decide (2 ^ 52 ≤ m) && m * twoTo e.toNat == 10 ^ power * twoTo (-e).toNat
  | _ => false

/-- The powers of ten that are kept at hand are exact. -/
theorem isTenTo_powerOfTen : ∀ power : Fin 23,
    (exact (powerOfTen power)).isTenTo power = true := by
  decide +kernel

/-- A power of ten with all bits is that power. -/
theorem Exact.isTenTo_spec {number : Exact} {power : Nat} (entry : number.isTenTo power = true) :
    ∃ (m : Nat) (e : ℤ), number = .finite false m e ∧ 2 ^ 52 ≤ m ∧ (m : ℚ) * 2 ^ e = 10 ^ power := by
  unfold Exact.isTenTo at entry
  split at entry
  · rename_i m e
    rw [Bool.and_eq_true, decide_eq_true_eq, beq_iff_eq] at entry
    obtain ⟨bits, same⟩ := entry
    refine ⟨m, e, rfl, bits, ?_⟩
    have scaled : (m : ℚ) * 2 ^ e.toNat = 10 ^ power * 2 ^ (-e).toNat := by
      exact_mod_cast same
    have apart : (2 : ℚ) ^ e * 2 ^ (-e).toNat = 2 ^ e.toNat := by
      rw [← zpow_natCast, ← zpow_natCast, ← zpow_add₀ (by norm_num)]
      congr 1
      omega
    have divisor : (2 : ℚ) ^ (-e).toNat ≠ 0 := by positivity
    rw [← mul_left_inj' divisor, mul_assoc, apart, scaled]
  · cases entry

/-- Such a power of ten in unpacked form. -/
theorem unpack_powerOfTen (power : Fin 23) : ∃ (m : Nat) (e : ℤ) (positive : 0 < m),
    (powerOfTen power).toModel.unpack = .finite .positive m e positive ∧ 2 ^ 52 ≤ m ∧
    (m : ℚ) * 2 ^ e = 10 ^ (power : Nat) := by
  obtain ⟨m, e, denoted, bits, same⟩ := Exact.isTenTo_spec (isTenTo_powerOfTen power)
  have positive : 0 < m := Nat.lt_of_lt_of_le (by norm_num) bits
  exact ⟨m, e, positive, unpack_of_exact denoted positive, bits, same⟩

/-- Few units are a number without loss. -/
theorem unpack_units {units : Nat} (some : 0 < units) (small : units < 2 ^ 53) :
    ∃ (m : Nat) (e : ℤ) (positive : 0 < m),
      units.toUInt64.toFloat.toModel.unpack = .finite .positive m e positive ∧ 2 ^ 52 ≤ m ∧
      (m : ℚ) * 2 ^ e = units := by
  obtain ⟨shift, whole, unpacked, bits, -⟩ := unpack_toUInt64 some small
  refine ⟨units * 2 ^ shift, -shift, whole, unpacked, bits, ?_⟩
  rw [zpow_neg, zpow_natCast]
  push_cast
  field_simp

/-- No units make a zero. -/
theorem unpack_no_units : (Nat.toUInt64 0).toFloat.toModel.unpack = .zero .positive := by rfl

/-- Zero is packed without loss. -/
theorem unpack_pack_zero :
    unpack Format.binary64 (pack Format.binary64 (.zero .positive)) = .zero .positive := by rfl

section Table

variable {units : Nat} (few : units < 2 ^ 53) (power : Fin 23)
include few

/-- Few units and a power of ten that is kept at hand are combined by one operation. -/
theorem ofScientific_of_few (negative : Bool) : Float.ofScientific units negative power =
    if negative then units.toUInt64.toFloat / powerOfTen power
    else units.toUInt64.toFloat * powerOfTen power := by
  rw [Float.ofScientific, dif_pos ⟨few, Nat.le_of_lt_succ power.isLt⟩]
  rfl

/-- Their product is the number nearest to what they denote. -/
theorem isNearest_of_product :
    IsNearest (.ofScientific units false power) (units * 10 ^ (power : Nat)) := by
  obtain ⟨m₂, e₂, two, right, -, tens⟩ := unpack_powerOfTen power
  have unpacked : (Float.ofScientific units false power).toModel.unpack =
      unpack Format.binary64 (pack Format.binary64 (UnpackedFloat.mul Format.binary64
        units.toUInt64.toFloat.toModel.unpack (powerOfTen power).toModel.unpack)) := by
    rw [ofScientific_of_few few]
    rfl
  rw [right] at unpacked
  rcases Nat.eq_zero_or_pos units with rfl | some
  · rw [unpack_no_units] at unpacked
    rw [Nat.cast_zero, zero_mul]
    exact isNearest_of_zero le_rfl (by positivity) (unpacked.trans unpack_pack_zero)
  · obtain ⟨m₁, e₁, one, left, bits, same⟩ := unpack_units some few
    have product : 2 ^ 52 * 1 ≤ m₁ * m₂ := Nat.mul_le_mul bits two
    have length : 52 ≤ (m₁ * m₂).log2 := (Nat.le_log2 (by omega)).2 (by omega)
    rw [left] at unpacked
    rw [← same, ← tens]
    exact isNearest_of_mul length unpacked

/-- Their quotient is the number nearest to what they denote. -/
theorem isNearest_of_quotient :
    IsNearest (.ofScientific units true power) (units / 10 ^ (power : Nat)) := by
  obtain ⟨m₂, e₂, two, right, -, tens⟩ := unpack_powerOfTen power
  have unpacked : (Float.ofScientific units true power).toModel.unpack =
      unpack Format.binary64 (pack Format.binary64 (UnpackedFloat.div Format.binary64
        units.toUInt64.toFloat.toModel.unpack (powerOfTen power).toModel.unpack)) := by
    rw [ofScientific_of_few few]
    rfl
  rw [right] at unpacked
  rcases Nat.eq_zero_or_pos units with rfl | some
  · rw [unpack_no_units] at unpacked
    rw [Nat.cast_zero, zero_div]
    exact isNearest_of_zero le_rfl (by positivity) (unpacked.trans unpack_pack_zero)
  · obtain ⟨m₁, e₁, one, left, -, same⟩ := unpack_units some few
    rw [left] at unpacked
    rw [← same, ← tens]
    exact isNearest_of_div unpacked

end Table

/-- A numeral is converted to the number nearest to what it denotes. -/
theorem isNearest_value (units : Nat) (power : ℤ) :
    IsNearest (Numeral.value units power) (units * 10 ^ power) := by
  unfold Numeral.value
  by_cases small : units < 2 ^ 53 ∧ power.natAbs ≤ 22
  · obtain ⟨few, near⟩ := small
    by_cases negative : power < 0
    · have tens : (10 : ℚ) ^ power = (10 ^ power.natAbs)⁻¹ := by
        rw [← zpow_natCast, ← zpow_neg]
        congr 1
        omega
      rw [decide_eq_true negative, tens, ← div_eq_mul_inv]
      exact isNearest_of_quotient few ⟨power.natAbs, Nat.lt_succ_of_le near⟩
    · have tens : (10 : ℚ) ^ power = 10 ^ power.natAbs := by
        rw [← zpow_natCast]
        congr 1
        omega
      rw [decide_eq_false negative, tens]
      exact isNearest_of_product few ⟨power.natAbs, Nat.lt_succ_of_le near⟩
  · apply isNearest_of_ofScientific
    have signed : (if (decide (power < 0)) = true then Int.negOfNat power.natAbs
        else Int.ofNat power.natAbs) = power := by
      by_cases negative : power < 0
      · rw [if_pos (decide_eq_true negative), Int.negOfNat_eq]
        change -(power.natAbs : ℤ) = power
        omega
      · rw [if_neg (by simpa using negative)]
        change (power.natAbs : ℤ) = power
        omega
    rw [Float.ofScientific, dif_neg small, signed]
    rfl

end Glean.Number
