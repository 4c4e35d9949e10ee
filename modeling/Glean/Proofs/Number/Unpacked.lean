import Mathlib.Algebra.Order.Ring.Int
import Glean.Number.Exact

/-!
# Numbers in unpacked form

`exact` reads a word by arithmetic; the operations of numbers are defined on the sign, mantissa and
exponent that `Float.Model.UnpackedFloat.unpack` takes out of it. Both readings agree (`exact_eq`),
and so facts about operations become facts about what the words denote: a natural number up to
`2 ^ 53` is converted without loss (`toInt?_ofNat`), and a number that lies in that range is
neither tiny nor huge (`moderate_of_exact`).
-/

namespace Glean.Number

open Float.Model (UnpackedFloat Format)
open Float.Model.UnpackedFloat

/-- Powers of two are those of the library. -/
@[simp]
theorem twoTo_eq (exponent : Nat) : twoTo exponent = 2 ^ exponent := rfl

/-- What an unpacked number denotes. -/
def Exact.ofUnpacked : UnpackedFloat → Exact
  | .notANumber => .notANumber
  | .infinity sign => .infinite (sign == .negative)
  | .zero sign => .finite (sign == .negative) 0 (-1074)
  | .finite sign mantissa exponent _ => .finite (sign == .negative) mantissa exponent

section Words

variable (word : BitVec Format.binary64.numBits)

/-- The mantissa is stored in the lowest 52 bits. -/
theorem toNat_unpackMantissa :
    (unpackMantissa word).toNat = word.toNat % 2 ^ 52 := by
  simp [unpackMantissa]

/-- The exponent is stored in the eleven bits above the mantissa. -/
theorem toNat_unpackExponent :
    (unpackExponent word).toNat = word.toNat / 2 ^ 52 % 2 ^ 11 := by
  simp [unpackExponent, Nat.shiftRight_eq_div_pow]

/-- The sign is stored in the highest bit. -/
theorem toNat_unpackSign :
    (unpackSign word).toNat = word.toNat / 2 ^ 63 % 2 := by
  change (word.extractLsb' 63 1).toNat = _
  rw [BitVec.extractLsb'_toNat, Nat.shiftRight_eq_div_pow]

/-- The highest bit is set in negative numbers. -/
theorem sign_eq :
    (word.toNat / 2 ^ 63 % 2 == 1) =
      (Sign.ofBitVec (unpackSign word) == .negative) := by
  rw [← toNat_unpackSign]
  generalize unpackSign word = bit
  revert bit
  decide

/-- The exponent of infinities and undefined numbers. -/
theorem unpackExponent_eq_last :
    unpackExponent word = -1#(Format.binary64.exponentBits) ↔
      word.toNat / 2 ^ 52 % 2 ^ 11 = 2047 := by
  rw [← toNat_unpackExponent, ← BitVec.toNat_inj]
  rfl

/-- The exponent of zeros and of numbers that are short of a bit. -/
theorem unpackExponent_eq_zero :
    unpackExponent word = 0#(Format.binary64.exponentBits) ↔ word.toNat / 2 ^ 52 % 2 ^ 11 = 0 := by
  rw [← toNat_unpackExponent, ← BitVec.toNat_inj]
  rfl

/-- The mantissa of zeros and infinities. -/
theorem unpackMantissa_eq_zero :
    unpackMantissa word = 0#(Format.binary64.mantissaBitsWithoutImplicit) ↔
      word.toNat % 2 ^ 52 = 0 := by
  rw [← toNat_unpackMantissa, ← BitVec.toNat_inj]
  rfl

end Words

/-- The bit that is not stored stands above the others. -/
theorem toNat_leading (mantissa : BitVec 52) :
    (1#1 ++ mantissa).toNat = mantissa.toNat + 2 ^ 52 := by
  rw [BitVec.toNat_append, ← Nat.shiftLeft_add_eq_or_of_lt mantissa.isLt, Nat.shiftLeft_eq]
  simp [Nat.add_comm]

/-- Both readings of a word agree. -/
theorem exact_eq (number : Float) : exact number = .ofUnpacked number.toModel.unpack := by
  have bits : number.toBits.toNat = number.toModel.toBits.toBitVec.toNat := rfl
  unfold exact
  delta Float.Model.unpack UnpackedFloat.unpack
  rw [bits]
  obtain ⟨word, same⟩ : ∃ word : BitVec Format.binary64.numBits,
      word = number.toModel.toBits.toBitVec := ⟨_, rfl⟩
  rw [← same]
  have last := unpackExponent_eq_last word
  have first := unpackExponent_eq_zero word
  have nothing := unpackMantissa_eq_zero word
  -- The sides are brought to the same conditions, and then compared case by case.
  conv_lhs => simp only [twoTo_eq, sign_eq, ← last, ← first, ← nothing]
  dsimp only
  by_cases highest : unpackExponent word = -1#11
  · rw [if_pos highest, if_pos highest]
    by_cases empty : unpackMantissa word = 0#52
    · rw [if_pos empty, if_pos empty]
      rfl
    · rw [if_neg empty, if_neg empty]
      rfl
  rw [if_neg highest, if_neg highest]
  by_cases least : unpackExponent word = 0#11
  · rw [if_pos least, if_pos least]
    by_cases empty : unpackMantissa word = 0#52
    · rw [dif_pos empty, nothing.1 empty]
      rfl
    · rw [dif_neg empty]
      change _ = Exact.finite _ _ _
      rw [toNat_unpackMantissa, toNat_unpackExponent, first.1 least]
      rfl
  · rw [if_neg least, if_neg least]
    change _ = Exact.finite _ _ _
    rw [toNat_leading, toNat_unpackMantissa, toNat_unpackExponent]
    rfl

/-- The sign is the highest bit. -/
theorem unpackSign_packComponents (sign : Sign) (exponent : BitVec 11) (mantissa : BitVec 52) :
    unpackSign (packComponents Format.binary64 sign exponent mantissa) = sign.toBitVec := by
  change (sign.toBitVec ++ exponent ++ mantissa).extractLsb' 63 1 = sign.toBitVec
  rw [BitVec.extractLsb'_append_eq_of_le (by decide),
    BitVec.extractLsb'_append_eq_of_le (by decide)]
  cases sign <;> rfl

/-- Finite numbers are equal when their parts are. -/
theorem finite_congr {sign sign' : Sign} {m m' : Nat} {e e' : Int} {positive : 0 < m}
    {positive' : 0 < m'} (signs : sign = sign') (mantissas : m = m') (exponents : e = e') :
    UnpackedFloat.finite sign m e positive = .finite sign' m' e' positive' := by
  subst signs mantissas exponents
  rfl

/-- A finite number is packed with its own exponent if it has all its bits, and with the least one
if it is short of a bit. -/
theorem pack_finite (spec : Format) (sign : Sign) (m : Nat) (e : Int) (positive : 0 < m) :
    pack spec (.finite sign m e positive) =
      if 2 ^ spec.exponentBits ≤
          (e + spec.exponentBias + spec.mantissaBitsWithoutImplicit).toNat + 1 then
        packedInfinity spec sign
      else if m.log2 + 1 = spec.mantissaBits then
        packComponents spec sign
          (.ofNat _ (e + spec.exponentBias + spec.mantissaBitsWithoutImplicit).toNat) (.ofNat _ m)
      else packComponents spec sign 0#_ (.ofNat _ m) := rfl

/-- A number with all its bits and an exponent within the range is packed without loss. -/
theorem unpack_pack (sign : Sign) {mantissa : Nat} {exponent : Int} (least : 2 ^ 52 ≤ mantissa)
    (most : mantissa < 2 ^ 53) (lower : -1074 ≤ exponent) (upper : exponent ≤ 971)
    (positive : 0 < mantissa) :
    unpack Format.binary64 (pack Format.binary64 (.finite sign mantissa exponent positive)) =
      .finite sign mantissa exponent positive := by
  have log : mantissa.log2 = 52 := (Nat.log2_eq_iff (by omega)).2 ⟨least, most⟩
  let biased := (exponent + 1075).toNat
  have bounds : 0 < biased ∧ biased < 2047 := by omega
  have stored : (BitVec.ofNat 11 biased).toNat = biased := Nat.mod_eq_of_lt (by omega)
  have packed : pack Format.binary64 (.finite sign mantissa exponent positive) =
      packComponents Format.binary64 sign (BitVec.ofNat 11 biased) (BitVec.ofNat 52 mantissa) := by
    have same : (exponent + Format.binary64.exponentBias +
        Format.binary64.mantissaBitsWithoutImplicit).toNat = biased := by
      change (exponent + 1023 + 52).toNat = (exponent + 1075).toNat
      omega
    have fits : ¬ 2 ^ Format.binary64.exponentBits ≤ biased + 1 := by
      change ¬ 2048 ≤ biased + 1
      omega
    rw [pack_finite, same, if_neg fits, log]
    rfl
  -- The stored exponent is neither of the two that mark other kinds of numbers.
  have notLast : BitVec.ofNat 11 biased ≠ -1#11 := by
    intro last
    have := congrArg BitVec.toNat last
    rw [stored] at this
    change biased = 2047 at this
    omega
  have notFirst : BitVec.ofNat 11 biased ≠ 0#11 := by
    intro first
    have := congrArg BitVec.toNat first
    rw [stored] at this
    change biased = 0 at this
    omega
  have whole : (1#1 ++ BitVec.ofNat 52 mantissa).toNat = mantissa := by
    rw [toNat_leading, BitVec.toNat_ofNat]
    omega
  have shifted : (biased : Int) - (Format.binary64.exponentBias + (52 : Nat)) = exponent := by
    change ((exponent + 1075).toNat : Int) - (1023 + 52) = exponent
    omega
  have signed : Sign.ofBitVec sign.toBitVec = sign := by cases sign <;> rfl
  rw [packed]
  delta unpack
  dsimp only
  rw [if_neg (by rwa [unpackExponent_packComponents]),
    if_neg (by rwa [unpackExponent_packComponents])]
  apply finite_congr
  · rw [unpackSign_packComponents, signed]
  · rw [unpackMantissa_packComponents, whole]
  · rw [unpackExponent_packComponents, stored]
    exact shifted

/-- The exponent at which a number has all its bits. -/
theorem targetExponent_eq {mantissa : Nat} {start exponent : Int}
    (size : mantissa.log2 + start = 52 + exponent) (lower : -1074 ≤ exponent) :
    Format.binary64.targetExponent (Float.Model.totalExponent mantissa start) = exponent := by
  simp only [Format.targetExponent, Float.Model.totalExponent]
  change max ((mantissa.log2 : Int) + 1 + start - 53) (-1074) = exponent
  omega

/-- Each zero put behind a number makes it one bit longer. -/
theorem log2_mul_two_pow {n : Nat} (positive : 0 < n) (shift : Nat) :
    (n * 2 ^ shift).log2 = n.log2 + shift := by
  refine (Nat.log2_eq_iff (Nat.mul_pos positive (Nat.two_pow_pos shift)).ne').2 ⟨?_, ?_⟩
  · rw [Nat.pow_add]
    exact Nat.mul_le_mul_right _ (Nat.log2_self_le positive.ne')
  · rw [Nat.add_right_comm, Nat.pow_add]
    exact Nat.mul_lt_mul_of_pos_right Nat.lt_log2_self (Nat.two_pow_pos shift)

/-- Zeros are shifted out without loss. -/
theorem shift_exact (mantissa shift : Nat) :
    ExtendedMantissa.ofMantissaAndAccuracy (mantissa * 2 ^ shift) .exact >>> shift =
      .ofMantissaAndAccuracy mantissa .exact := by
  induction shift generalizing mantissa with
  | zero => simp only [Nat.pow_zero, Nat.mul_one]; rfl
  | succ shift ih =>
    have split : mantissa * 2 ^ (shift + 1) = mantissa * 2 * 2 ^ shift := by
      rw [Nat.pow_succ, Nat.mul_assoc, Nat.mul_comm 2]
    change ExtendedMantissa.shiftRightOne
      (ExtendedMantissa.ofMantissaAndAccuracy (mantissa * 2 ^ (shift + 1)) .exact >>> shift) = _
    rw [split, ih]
    simp [ExtendedMantissa.shiftRightOne, ExtendedMantissa.ofMantissaAndAccuracy]

/-- A number that has all its bits after zeros are shifted out is rounded to itself. -/
theorem roundWithAccuracy_exact (sign : Sign) {mantissa : Nat} (exponent : Int) (shift : Nat)
    (least : 2 ^ 52 ≤ mantissa) (most : mantissa < 2 ^ 53) (lower : -1074 ≤ exponent)
    (positive : 0 < mantissa) :
    roundWithAccuracy Format.binary64 sign (mantissa * 2 ^ shift) (exponent - shift) .exact =
      .finite sign mantissa exponent positive := by
  have log : mantissa.log2 = 52 := (Nat.log2_eq_iff positive.ne').2 ⟨least, most⟩
  have first : shiftToTargetExponent Format.binary64 (mantissa * 2 ^ shift) (exponent - shift)
      .exact = (.ofMantissaAndAccuracy mantissa .exact, exponent) := by
    have longer := log2_mul_two_pow positive shift
    have target : Format.binary64.targetExponent
        (Float.Model.totalExponent (mantissa * 2 ^ shift) (exponent - shift)) = exponent :=
      targetExponent_eq (by omega) lower
    have places : (exponent - (exponent - shift)).toNat = shift := by omega
    simp only [shiftToTargetExponent, target, shiftToExponent, places, shift_exact]
    simp
  have second : shiftToTargetExponent Format.binary64 mantissa exponent .exact =
      (.ofMantissaAndAccuracy mantissa .exact, exponent) := by
    have target : Format.binary64.targetExponent (Float.Model.totalExponent mantissa exponent) =
        exponent := targetExponent_eq (by omega) lower
    simp only [shiftToTargetExponent, target, shiftToExponent, Int.sub_self, Int.toNat_zero]
    simp
    rfl
  have rounded : (ExtendedMantissa.ofMantissaAndAccuracy mantissa .exact).roundedMantissa =
      mantissa := rfl
  have kept : (ExtendedMantissa.ofMantissaAndAccuracy mantissa .exact).mantissa = mantissa := rfl
  unfold roundWithAccuracy
  rw [first]
  dsimp only
  rw [rounded, second]
  exact dif_neg (kept.symm ▸ positive.ne')

/-- A word with fewer bits is converted without loss: zeros are put behind it. -/
theorem unpack_ofUInt64 {word : UInt64} {shift : Nat} (size : word.toNat.log2 + shift = 52)
    (least : 2 ^ 52 ≤ word.toNat * 2 ^ shift) (most : word.toNat * 2 ^ shift < 2 ^ 53)
    (positive : 0 < word.toNat * 2 ^ shift) :
    (Float.Model.ofUInt64 word).unpack =
      .finite .positive (word.toNat * 2 ^ shift) (-shift) positive := by
  have some : 0 < word.toNat := Nat.pos_of_mul_pos_right positive
  have sign : compare (word.toNat : Int) 0 = .gt := Int.compare_eq_gt.2 (by omega)
  have target : Format.binary64.targetExponent (Float.Model.totalExponent word.toNat 0) =
      -shift := targetExponent_eq (by omega) (by omega)
  have exact := roundWithAccuracy_exact .positive (-shift) 0 least most (by omega) positive
  rw [Nat.pow_zero, Nat.mul_one, Int.natCast_zero, Int.sub_zero] at exact
  have normal : UnpackedFloat.normalize Format.binary64 (word.toNat : Int) 0 .positive =
      roundWithAccuracy Format.binary64 .positive (word.toNat * 2 ^ shift) (-shift) .exact := by
    simp only [UnpackedFloat.normalize, sign, Int.toNat_natCast, UnpackedFloat.round, target,
      decreaseExponent, Nat.shiftLeft_eq, Int.zero_sub, Int.neg_neg]
  change unpack Format.binary64 (pack Format.binary64
    (UnpackedFloat.normalize Format.binary64 (word.toNat : Int) 0 .positive)) = _
  rw [normal, exact]
  exact unpack_pack .positive least most (by omega) (by omega) positive

/-- A word for a natural number below `2 ^ 53` is converted without loss. -/
theorem unpack_toUInt64 {n : Nat} (positive : 0 < n) (small : n < 2 ^ 53) :
    ∃ (shift : Nat) (whole : 0 < n * 2 ^ shift),
      n.toUInt64.toFloat.toModel.unpack = .finite .positive (n * 2 ^ shift) (-shift) whole ∧
      2 ^ 52 ≤ n * 2 ^ shift ∧ n * 2 ^ shift < 2 ^ 53 ∧ shift ≤ 52 := by
  let shift := 52 - n.log2
  have whole : 0 < n * 2 ^ shift := Nat.mul_pos positive (Nat.two_pow_pos shift)
  have log : n.log2 < 53 := (Nat.log2_lt positive.ne').2 small
  have size : n.log2 + shift = 52 := by omega
  have bounds : 2 ^ 52 ≤ n * 2 ^ shift ∧ n * 2 ^ shift < 2 ^ 53 :=
    (Nat.log2_eq_iff whole.ne').1 (by rw [log2_mul_two_pow positive, size])
  obtain ⟨least, most⟩ := bounds
  have word : n.toUInt64.toNat = n := Nat.mod_eq_of_lt (by omega)
  have converted := @unpack_ofUInt64 n.toUInt64 shift
  rw [word] at converted
  exact ⟨shift, whole, converted size least most whole, least, most, by omega⟩

/-- A natural number below `2 ^ 53` is converted without loss. -/
theorem unpack_ofNat {n : Nat} (positive : 0 < n) (small : n < 2 ^ 53) :
    ∃ (shift : Nat) (whole : 0 < n * 2 ^ shift),
      (Float.ofNat n).toModel.unpack = .finite .positive (n * 2 ^ shift) (-shift) whole := by
  obtain ⟨shift, whole, converted, least, most, few⟩ := unpack_toUInt64 positive small
  -- A literal without a fraction is the word times one.
  have fast : Float.ofNat n = n.toUInt64.toFloat * Float.ofBits 0x3FF0000000000000 := by
    change Float.ofScientific n false 0 = _
    rw [Float.ofScientific, dif_pos ⟨small, by omega⟩]
    rfl
  have one : (Float.ofBits 0x3FF0000000000000).toModel.unpack =
      .finite .positive (2 ^ 52) (-52) (by decide) := by rfl
  have product := roundWithAccuracy_exact .positive (-shift) 52 least most (by omega) whole
  refine ⟨shift, whole, ?_⟩
  rw [fast]
  change unpack Format.binary64 (pack Format.binary64 (UnpackedFloat.mul Format.binary64
    n.toUInt64.toFloat.toModel.unpack (Float.ofBits 0x3FF0000000000000).toModel.unpack)) = _
  rw [converted, one]
  change unpack Format.binary64 (pack Format.binary64 (roundWithAccuracy Format.binary64 .positive
    (n * 2 ^ shift * 2 ^ 52) (-shift - (52 : Nat)) .exact)) = _
  rw [product]
  exact unpack_pack .positive least most (by omega) (by omega) whole

/-- A natural number up to `2 ^ 53` is converted to the number that is this integer. -/
theorem toInt?_ofNat {n : Nat} (small : n ≤ 2 ^ 53) : toInt? (.ofNat n) = some n := by
  rcases Nat.eq_zero_or_pos n with rfl | positive
  · decide +kernel
  rcases Nat.lt_or_eq_of_le small with below | rfl
  · obtain ⟨shift, whole, unpacked⟩ := unpack_ofNat positive below
    have nothing : (-(shift : Int)).toNat = 0 := by omega
    have denoted : exact (.ofNat n) = .finite false (n * 2 ^ shift) (-shift) := by
      rw [exact_eq, unpacked]
      rfl
    simp [toInt?, denoted, nothing, twoTo, signed]
  · decide +kernel

/-- The unpacked form of a positive number. -/
theorem unpack_of_exact {number : Float} {significand : Nat} {exponent : Int}
    (denoted : exact number = .finite false significand exponent) (positive : 0 < significand) :
    number.toModel.unpack = .finite .positive significand exponent positive := by
  rw [exact_eq] at denoted
  cases unpacked : number.toModel.unpack with
  | finite sign =>
    rw [unpacked] at denoted
    obtain ⟨plus, rfl, rfl⟩ := Exact.finite.inj denoted
    cases sign with
    | negative => cases plus
    | positive => rfl
  | zero =>
    rw [unpacked] at denoted
    obtain ⟨-, rfl, -⟩ := Exact.finite.inj denoted
    exact absurd positive (Nat.lt_irrefl 0)
  | _ =>
    rw [unpacked] at denoted
    cases denoted

/-- Numbers with all their bits that lie between one and `2 ^ 53` are neither tiny nor huge. -/
theorem moderate_of_exact {number : Float} {significand : Nat} {exponent : Int}
    (denoted : exact number = .finite false significand exponent) (least : 2 ^ 52 ≤ significand)
    (most : significand < 2 ^ 53) (lower : -52 ≤ exponent) (upper : exponent ≤ 0) :
    (number.abs < 1e-6 || 1e21 ≤ number.abs) = false := by
  have positive : 0 < significand := by omega
  have magnitude : number.abs.toModel.unpack = .finite .positive significand exponent positive := by
    change unpack Format.binary64 (pack Format.binary64 number.toModel.unpack.abs) = _
    rw [unpack_of_exact denoted positive]
    exact unpack_pack .positive least most (by omega) (by omega) positive
  have tiny : exact 1e-6 = .finite false 4722366482869645 (-72) := by decide +kernel
  have huge : exact 1e21 = .finite false 7629394531250000 17 := by decide +kernel
  have tiny := unpack_of_exact tiny (by decide)
  have huge := unpack_of_exact huge (by decide)
  rw [Bool.or_eq_false_iff]
  refine ⟨decide_eq_false fun less => ?_, decide_eq_false fun most => ?_⟩
  · have compared : number.abs.toModel.unpack.lt (1e-6 : Float).toModel.unpack = true :=
      of_decide_eq_true less
    have order : compare exponent (-72) = .gt := Int.compare_eq_gt.2 (by omega)
    rw [magnitude, tiny] at compared
    change (some ((compare exponent (-72)).then _) == some .lt) = true at compared
    rw [order] at compared
    cases compared
  · have compared : (1e21 : Float).toModel.unpack.le number.abs.toModel.unpack = true :=
      of_decide_eq_true most
    have order : compare 17 exponent = .gt := Int.compare_eq_gt.2 (by omega)
    rw [magnitude, huge] at compared
    change (some ((compare 17 exponent).then _)).any (·.isLE) = true at compared
    rw [order] at compared
    cases compared

/-- What a word can denote: a significand short of a bit comes with the least exponent only. -/
theorem exact_bounds {number : Float} {negative : Bool} {significand : Nat} {exponent : Int}
    (denoted : exact number = .finite negative significand exponent) :
    significand < 2 ^ 53 ∧ -1074 ≤ exponent ∧ exponent ≤ 971 ∧
      (significand < 2 ^ 52 → exponent = -1074) := by
  unfold exact at denoted
  dsimp only [twoTo, Nat.pow_eq] at denoted
  split at denoted
  · split at denoted <;> cases denoted
  · split at denoted <;> cases denoted <;> omega

end Glean.Number
