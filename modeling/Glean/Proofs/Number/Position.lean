import Mathlib.Algebra.Order.Field.Power
import Mathlib.Algebra.Order.Field.Rat
import Mathlib.Tactic.Linarith
import Mathlib.Tactic.Positivity
import Mathlib.Tactic.Ring
import Glean.Proofs.Number.Unpacked

/-!
# Positions of numbers

A number that is defined lies somewhere among the rationals, an infinity where the next power of two
would be. Numbers compare as their positions do (`le_iff_position_le`), and negation mirrors them at
zero (`exact_neg`).
-/

namespace Glean.Number

open Float.Model (UnpackedFloat Format)
open Float.Model.UnpackedFloat

/-! ### Significands and exponents -/

/-- A significand with an exponent as a word stores them: one that is short of a bit comes with the
least exponent only. -/
def IsStored (significand : Nat) (exponent : Int) : Prop :=
  significand < 2 ^ 53 ∧ -1074 ≤ exponent ∧ exponent ≤ 971 ∧
    (significand < 2 ^ 52 → exponent = -1074)

/-- The first power of two behind all finite numbers. -/
@[irreducible]
def horizon : ℚ := 2 ^ 1024

/-- The horizon is the power of two that is too large for a number. -/
theorem horizon_eq : horizon = (2 : ℚ) ^ (1024 : ℤ) := by
  unfold horizon
  exact (zpow_natCast 2 1024).symm

/-- The horizon is positive. -/
theorem horizon_pos : 0 < horizon := by
  rw [horizon_eq]
  positivity

section Stored

variable {m n : Nat} {e f : Int}

/-- A larger exponent makes a larger number, whatever the significands are. -/
theorem IsStored.lt_of_exponent_lt (left : IsStored m e) (right : IsStored n f) (less : e < f) :
    (m : ℚ) * 2 ^ e < n * 2 ^ f := by
  have full : 2 ^ 52 ≤ n := by
    by_contra! short
    have least := right.2.2.2 short
    have lowest := left.2.1
    omega
  have next : e + 1 ≤ f := by omega
  have scale : (0 : ℚ) < 2 ^ e := by positivity
  calc (m : ℚ) * 2 ^ e < 2 ^ 53 * 2 ^ e := by
        apply mul_lt_mul_of_pos_right _ scale
        exact_mod_cast left.1
    _ = 2 ^ 52 * 2 ^ (e + 1) := by rw [zpow_add_one₀ (by norm_num)]; ring
    _ ≤ n * 2 ^ f := by
        apply mul_le_mul _ (zpow_le_zpow_right₀ (by norm_num) next) (by positivity) (by positivity)
        exact_mod_cast full

/-- Finite numbers lie before the horizon. -/
theorem IsStored.lt_horizon (stored : IsStored m e) : (m : ℚ) * 2 ^ e < horizon := by
  have scale : (0 : ℚ) < 2 ^ e := by positivity
  calc (m : ℚ) * 2 ^ e < 2 ^ 53 * 2 ^ e := by
        apply mul_lt_mul_of_pos_right _ scale
        exact_mod_cast stored.1
    _ ≤ 2 ^ 53 * 2 ^ (971 : ℤ) := by
        apply mul_le_mul_of_nonneg_left _ (by positivity)
        exact zpow_le_zpow_right₀ (by norm_num) stored.2.2.1
    _ = horizon := by rw [horizon_eq, ← zpow_natCast, ← zpow_add₀ (by norm_num)]; norm_num

/-- Stored numbers are ordered by their exponents and then by their significands. -/
theorem IsStored.compare_eq (left : IsStored m e) (right : IsStored n f) :
    (compare e f).then (compare m n) = compare ((m : ℚ) * 2 ^ e) (n * 2 ^ f) := by
  rcases lt_trichotomy e f with less | rfl | greater
  · rw [compare_lt_iff_lt.2 less, compare_lt_iff_lt.2 (left.lt_of_exponent_lt right less)]
    rfl
  · have scale : (0 : ℚ) < 2 ^ e := by positivity
    rw [compare_eq_iff_eq.2 rfl]
    change compare m n = _
    rcases lt_trichotomy m n with less | rfl | greater
    · have scaled : (m : ℚ) * 2 ^ e < n * 2 ^ e :=
        mul_lt_mul_of_pos_right (by exact_mod_cast less) scale
      rw [compare_lt_iff_lt.2 less, compare_lt_iff_lt.2 scaled]
    · rw [compare_eq_iff_eq.2 rfl, compare_eq_iff_eq.2 rfl]
    · have scaled : (n : ℚ) * 2 ^ e < m * 2 ^ e :=
        mul_lt_mul_of_pos_right (by exact_mod_cast greater) scale
      rw [compare_gt_iff_gt.2 greater, compare_gt_iff_gt.2 scaled]
  · rw [compare_gt_iff_gt.2 greater, compare_gt_iff_gt.2 (right.lt_of_exponent_lt left greater)]
    rfl

end Stored

/-! ### Positions -/

/-- Where something that a word denotes lies. An infinity lies at the horizon; what is undefined
lies nowhere, and zero stands for that. -/
def Exact.position : Exact → ℚ
  | .notANumber => 0
  | .infinite negative => if negative then -horizon else horizon
  | .finite negative significand exponent => (signed negative significand : ℤ) * 2 ^ exponent

/-- Where a number lies. -/
def position (number : Float) : ℚ := (exact number).position

/-- What a word can denote. -/
def Exact.IsStored : Exact → Prop
  | .finite _ significand exponent => Number.IsStored significand exponent
  | _ => True

/-- What a number denotes is in the form that numbers are stored in. -/
theorem isStored_exact (number : Float) : (exact number).IsStored := by
  cases denoted : exact number with
  | finite negative significand exponent => exact exact_bounds denoted
  | _ => trivial

/-- The word that denotes something. -/
def Exact.word : Exact → Nat
  | .notANumber => 2047 * 2 ^ 52 + 2 ^ 51
  | .infinite negative => (if negative then 2 ^ 63 else 0) + 2047 * 2 ^ 52
  | .finite negative significand exponent =>
    (if negative then 2 ^ 63 else 0) +
      if significand < 2 ^ 52 then significand
      else (exponent + 1075).toNat * 2 ^ 52 + (significand - 2 ^ 52)

/-- The only word for what is undefined. -/
theorem toNat_of_undefined {number : Float} (last : number.toBits.toNat / 2 ^ 52 % 2 ^ 11 = 2047)
    (some : number.toBits.toNat % 2 ^ 52 ≠ 0) :
    number.toBits.toNat = 2047 * 2 ^ 52 + 2 ^ 51 := by
  have canonical : number.toModel.toBits.toBitVec = packedNaN Format.binary64 :=
    number.toModel.valid.eq_packedNaN ((unpackExponent_eq_last _).2 last) fun zero =>
      some ((unpackMantissa_eq_zero _).1 zero)
  change number.toModel.toBits.toBitVec.toNat = _
  rw [canonical]
  rfl

/-- A word is determined by what it denotes. -/
theorem toNat_eq_word (number : Float) : number.toBits.toNat = (exact number).word := by
  have bound : number.toBits.toNat < 2 ^ 64 := number.toBits.toNat_lt
  have undefined := @toNat_of_undefined number
  have sign : (if (number.toBits.toNat / 2 ^ 63 % 2 == 1) = true then 2 ^ 63 else 0) =
      number.toBits.toNat / 2 ^ 63 * 2 ^ 63 := by
    split
    · rename_i negative
      rw [beq_iff_eq] at negative
      omega
    · rename_i positive
      rw [beq_iff_eq] at positive
      omega
  unfold exact
  dsimp only [twoTo, Nat.pow_eq]
  generalize number.toBits.toNat = word at bound undefined sign ⊢
  by_cases last : word / 2 ^ 52 % 2 ^ 11 = 2047
  · rw [if_pos last]
    by_cases zero : word % 2 ^ 52 = 0
    · rw [if_pos zero, Exact.word, sign]
      omega
    · rw [if_neg zero]
      exact undefined last zero
  · rw [if_neg last]
    by_cases least : word / 2 ^ 52 % 2 ^ 11 = 0
    · rw [if_pos least, Exact.word, sign, if_pos (Nat.mod_lt _ (by decide))]
      omega
    · rw [if_neg least, Exact.word, sign, if_neg (by omega)]
      omega

/-- Numbers that denote the same are the same. -/
theorem exact_injective {x y : Float} (same : exact x = exact y) : x = y := by
  have bits : x.toBits = y.toBits := by
    apply UInt64.toNat_inj.1
    rw [toNat_eq_word, toNat_eq_word, same]
  obtain ⟨⟨_, _⟩⟩ := x
  obtain ⟨⟨_, _⟩⟩ := y
  congr

/-- Mirrored positions are in the opposite order. -/
theorem compare_neg_neg (x y : ℚ) : compare (-x) (-y) = (compare x y).swap := by
  rcases lt_trichotomy x y with less | rfl | greater
  · rw [compare_lt_iff_lt.2 less, compare_gt_iff_gt.2 (neg_lt_neg less)]
    rfl
  · rw [compare_eq_iff_eq.2 rfl, compare_eq_iff_eq.2 rfl]
    rfl
  · rw [compare_gt_iff_gt.2 greater, compare_lt_iff_lt.2 (neg_lt_neg greater)]
    rfl

section Unpacked

variable {sign : Sign} {m : Nat} {e : Int} {positive : 0 < m}

/-- Both zeros are at zero. -/
theorem position_zero : (Exact.ofUnpacked (.zero sign)).position = 0 := by
  change (Exact.finite (sign == .negative) 0 (-1074)).position = 0
  simp [Exact.position, signed]

/-- A positive number is at its mantissa, scaled by its exponent. -/
theorem position_positive :
    (Exact.ofUnpacked (.finite .positive m e positive)).position = m * 2 ^ e := by
  change (Exact.finite false m e).position = m * 2 ^ e
  simp [Exact.position, signed]

/-- A negative number is at the negative of its mantissa, scaled by its exponent. -/
theorem position_negative :
    (Exact.ofUnpacked (.finite .negative m e positive)).position = -(m * 2 ^ e) := by
  change (Exact.finite true m e).position = -(m * 2 ^ e)
  simp [Exact.position, signed]

/-- The positive infinity is at the horizon. -/
theorem position_infinity : (Exact.ofUnpacked (.infinity .positive)).position = horizon := rfl

/-- The negative infinity is at the negative of the horizon. -/
theorem position_neg_infinity : (Exact.ofUnpacked (.infinity .negative)).position = -horizon := rfl

end Unpacked

/-- Every number lies between the infinities. -/
theorem Exact.IsStored.abs_position_le {number : Exact} (stored : number.IsStored) :
    |number.position| ≤ horizon := by
  have huge := horizon_pos
  cases number with
  | notANumber => exact abs_zero.trans_le huge.le
  | infinite negative =>
    cases negative
    · exact (abs_of_pos huge).le
    · exact ((abs_neg horizon).trans (abs_of_pos huge)).le
  | finite negative significand exponent =>
    have bound := Number.IsStored.lt_horizon stored
    have some : (0 : ℚ) ≤ significand * 2 ^ exponent := by positivity
    have magnitude : |(Exact.finite negative significand exponent).position| =
        significand * 2 ^ exponent := by
      cases negative <;> simp [Exact.position, signed]
    rw [magnitude]
    exact bound.le

/-- No number is beyond the horizon. -/
theorem abs_position_le (number : Float) : |position number| ≤ horizon :=
  (isStored_exact number).abs_position_le

section Compared

/-- The answer for a smaller position is that of comparing the positions. -/
theorem some_lt_of_lt {x y : ℚ} (less : x < y) : some Ordering.lt = some (compare x y) := by
  rw [compare_lt_iff_lt.2 less]

/-- The answer for a larger position is that of comparing the positions. -/
theorem some_gt_of_lt {x y : ℚ} (greater : y < x) : some Ordering.gt = some (compare x y) := by
  rw [compare_gt_iff_gt.2 greater]

/-- The answer for one position is that of comparing it with itself. -/
theorem some_eq_self (x : ℚ) : some Ordering.eq = some (compare x x) := by
  rw [compare_eq_iff_eq.2 rfl]

variable {b : UnpackedFloat} (right : (Exact.ofUnpacked b).IsStored) (other : b.isNaN = false)
include right other

/-- An infinity is before or behind all finite numbers. -/
theorem compare_infinity (sign : Sign) : UnpackedFloat.compare (.infinity sign) b =
    some (compare (Exact.ofUnpacked (.infinity sign)).position (Exact.ofUnpacked b).position) := by
  have huge := horizon_pos
  cases b with
  | notANumber => cases other
  | infinity next =>
    cases sign <;> cases next
    · exact some_eq_self _
    · exact some_lt_of_lt (neg_lt_self huge)
    · exact some_gt_of_lt (neg_lt_self huge)
    · exact some_eq_self _
  | zero next =>
    rw [position_zero]
    cases sign
    · exact some_lt_of_lt (neg_lt_zero.2 huge)
    · exact some_gt_of_lt huge
  | finite next n f some =>
    have bound := right.lt_horizon
    have positive : (0 : ℚ) < n * 2 ^ f := by positivity
    cases sign <;> cases next
    · rw [position_negative]
      exact some_lt_of_lt (neg_lt_neg bound)
    · rw [position_positive]
      exact some_lt_of_lt (by rw [position_neg_infinity]; linarith)
    · rw [position_negative]
      exact some_gt_of_lt (by rw [position_infinity]; linarith)
    · rw [position_positive]
      exact some_gt_of_lt bound

omit right in
/-- Zero is between the numbers of both signs. -/
theorem compare_zero (sign : Sign) : UnpackedFloat.compare (.zero sign) b =
    some (compare (Exact.ofUnpacked (.zero sign)).position (Exact.ofUnpacked b).position) := by
  have huge := horizon_pos
  rw [position_zero]
  cases b with
  | notANumber => cases other
  | infinity next =>
    cases next
    · exact some_gt_of_lt (neg_lt_zero.2 huge)
    · exact some_lt_of_lt huge
  | zero next =>
    rw [position_zero]
    exact some_eq_self 0
  | finite next n f some =>
    have positive : (0 : ℚ) < n * 2 ^ f := by positivity
    cases next
    · rw [position_negative]
      exact some_gt_of_lt (neg_lt_zero.2 positive)
    · rw [position_positive]
      exact some_lt_of_lt positive

/-- Finite numbers of one sign compare by exponent and significand. -/
theorem compare_finite (sign : Sign) {m : Nat} {e : Int} (some : 0 < m) (left : IsStored m e) :
    UnpackedFloat.compare (.finite sign m e some) b =
      .some (compare (Exact.ofUnpacked (.finite sign m e some)).position
        (Exact.ofUnpacked b).position) := by
  have huge := horizon_pos
  have bound := left.lt_horizon
  have positive : (0 : ℚ) < m * 2 ^ e := by positivity
  cases b with
  | notANumber => cases other
  | infinity next =>
    cases sign <;> cases next
    · rw [position_negative]
      exact some_gt_of_lt (neg_lt_neg bound)
    · rw [position_negative]
      exact some_lt_of_lt (by rw [position_infinity]; linarith)
    · rw [position_positive]
      exact some_gt_of_lt (by rw [position_neg_infinity]; linarith)
    · rw [position_positive]
      exact some_lt_of_lt bound
  | zero next =>
    rw [position_zero]
    cases sign
    · rw [position_negative]
      exact some_lt_of_lt (neg_lt_zero.2 positive)
    · rw [position_positive]
      exact some_gt_of_lt positive
  | finite next n f filled =>
    have ordered := IsStored.compare_eq left right
    have opposite : (0 : ℚ) < n * 2 ^ f := by positivity
    cases sign <;> cases next
    · rw [position_negative, position_negative, compare_neg_neg, ← ordered]
      rfl
    · rw [position_negative, position_positive]
      exact some_lt_of_lt (by linarith)
    · rw [position_positive, position_negative]
      exact some_gt_of_lt (by linarith)
    · rw [position_positive, position_positive, ← ordered]
      rfl

/-- Numbers that are defined compare as their positions do. -/
theorem compare_ofUnpacked {a : UnpackedFloat} (left : (Exact.ofUnpacked a).IsStored)
    (one : a.isNaN = false) : a.compare b =
      some (compare (Exact.ofUnpacked a).position (Exact.ofUnpacked b).position) := by
  cases a with
  | notANumber => cases one
  | infinity sign => exact compare_infinity right other sign
  | zero sign => exact compare_zero other sign
  | finite sign m e some => exact compare_finite right other sign some left

end Compared

/-- Numbers that are defined are ordered as their positions are. -/
theorem le_iff_position_le {x y : Float} (one : x.isNaN = false) (other : y.isNaN = false) :
    x ≤ y ↔ position x ≤ position y := by
  have compared : x.toModel.unpack.compare y.toModel.unpack =
      some (compare (position x) (position y)) := by
    rw [position, position, exact_eq, exact_eq]
    exact compare_ofUnpacked (exact_eq y ▸ isStored_exact y) other (exact_eq x ▸ isStored_exact x)
      one
  have unfolded : x ≤ y ↔ (x.toModel.unpack.compare y.toModel.unpack).any (·.isLE) = true := by
    change decide (x.toModel ≤ y.toModel) = true ↔ _
    rw [decide_eq_true_eq]
    rfl
  rw [unfolded, compared]
  exact Std.LawfulBCmp.isLE_iff_le

/-- The unpacked form of an undefined number. -/
theorem unpack_of_isNaN {x : Float} (undefined : x.isNaN = true) :
    x.toModel.unpack = .notANumber := by
  have same : x.toModel.unpack.isNaN = true := undefined
  cases unpacked : x.toModel.unpack with
  | notANumber => rfl
  | _ =>
    rw [unpacked] at same
    cases same

/-- There is one undefined number. -/
theorem eq_of_isNaN {x y : Float} (one : x.isNaN = true) (other : y.isNaN = true) : x = y := by
  apply exact_injective
  rw [exact_eq, exact_eq, unpack_of_isNaN one, unpack_of_isNaN other]

/-- An undefined number is not in order with any. -/
theorem not_le_of_isNaN {x y : Float} (undefined : x.isNaN = true ∨ y.isNaN = true) : ¬x ≤ y := by
  have nothing : x.toModel.unpack.compare y.toModel.unpack = none := by
    rcases undefined with one | other
    · rw [unpack_of_isNaN one]
      rfl
    · rw [unpack_of_isNaN other]
      cases x.toModel.unpack with
      | infinity sign | finite sign => cases sign <;> rfl
      | _ => rfl
  intro less
  have compared : (x.toModel.unpack.compare y.toModel.unpack).any (·.isLE) = true :=
    of_decide_eq_true less
  rw [nothing] at compared
  cases compared

/-! ### Packing and negation -/

/-- A number that is short of a bit and has the least exponent is packed without loss. -/
theorem unpack_pack_of_short (sign : Sign) {m : Nat} (short : m < 2 ^ 52) (positive : 0 < m) :
    unpack Format.binary64 (pack Format.binary64 (.finite sign m (-1074) positive)) =
      .finite sign m (-1074) positive := by
  have log : m.log2 < 52 := (Nat.log2_lt positive.ne').2 short
  have partial' : ¬m.log2 + 1 = Format.binary64.mantissaBits := by
    change ¬m.log2 + 1 = 53
    omega
  have fits : ¬2 ^ Format.binary64.exponentBits ≤ ((-1074 : Int) + Format.binary64.exponentBias +
      Format.binary64.mantissaBitsWithoutImplicit).toNat + 1 := by decide
  have packed : pack Format.binary64 (.finite sign m (-1074) positive) =
      packComponents Format.binary64 sign 0#11 (BitVec.ofNat 52 m) := by
    rw [pack_finite, if_neg fits, if_neg partial']
  have stored : (BitVec.ofNat 52 m).toNat = m := Nat.mod_eq_of_lt short
  have some : BitVec.ofNat 52 m ≠ 0#52 := by
    intro zero
    have same := congrArg BitVec.toNat zero
    rw [stored] at same
    change m = 0 at same
    omega
  have notLast : (0#11 : BitVec 11) ≠ -1#11 := by decide
  have signed : Sign.ofBitVec sign.toBitVec = sign := by cases sign <;> rfl
  rw [packed]
  delta unpack
  dsimp only
  rw [if_neg (by rwa [unpackExponent_packComponents]),
    if_pos (by rw [unpackExponent_packComponents]),
    dif_neg (by rwa [unpackMantissa_packComponents])]
  apply finite_congr
  · rw [unpackSign_packComponents, signed]
  · rw [unpackMantissa_packComponents, stored]
  · rw [unpackExponent_packComponents]
    rfl

/-- What a word can denote is packed without loss. -/
theorem unpack_pack_of_stored {a : UnpackedFloat} (stored : (Exact.ofUnpacked a).IsStored) :
    unpack Format.binary64 (pack Format.binary64 a) = a := by
  cases a with
  | notANumber => rfl
  | infinity sign | zero sign => cases sign <;> rfl
  | finite sign m e positive =>
    obtain ⟨most, lower, upper, least⟩ := stored
    by_cases short : m < 2 ^ 52
    · obtain rfl : e = -1074 := least short
      exact unpack_pack_of_short sign short positive
    · exact unpack_pack sign (by omega) most lower upper positive

/-- What a number denotes under the other sign. -/
def Exact.neg : Exact → Exact
  | .notANumber => .notANumber
  | .infinite negative => .infinite !negative
  | .finite negative significand exponent => .finite (!negative) significand exponent

/-- Negating a number negates what it denotes. -/
theorem ofUnpacked_neg (a : UnpackedFloat) : Exact.ofUnpacked a.neg = (Exact.ofUnpacked a).neg := by
  cases a with
  | notANumber => rfl
  | infinity sign | zero sign | finite sign => cases sign <;> rfl

/-- Negation is packed without loss. -/
theorem unpack_neg (x : Float) : (-x).toModel.unpack = x.toModel.unpack.neg := by
  have stored : (Exact.ofUnpacked x.toModel.unpack.neg).IsStored := by
    have same := isStored_exact x
    rw [exact_eq] at same
    rw [ofUnpacked_neg]
    cases unpacked : x.toModel.unpack with
    | finite sign =>
      rw [unpacked] at same
      exact same
    | _ => trivial
  exact unpack_pack_of_stored stored

/-- Negation changes the sign alone. -/
theorem exact_neg (x : Float) : exact (-x) = (exact x).neg := by
  rw [exact_eq, unpack_neg, ofUnpacked_neg, ← exact_eq]

/-- The opposite of a defined number is defined. -/
theorem isNaN_neg (x : Float) : (-x).isNaN = x.isNaN := by
  change (-x).toModel.unpack.isNaN = x.toModel.unpack.isNaN
  rw [unpack_neg]
  cases x.toModel.unpack <;> rfl

/-- The opposite of a number that is an integer is the opposite integer. -/
theorem toInt?_neg (x : Float) : toInt? (-x) = (toInt? x).map (-·) := by
  have opposite (negative : Bool) (magnitude : Nat) :
      signed (!negative) magnitude = -signed negative magnitude := by
    cases negative <;> simp [signed]
  unfold toInt?
  rw [exact_neg]
  cases exact x with
  | finite negative significand exponent =>
    simp only [Exact.neg, opposite]
    split <;> rfl
  | _ => rfl

/-- An integer of at most `2 ^ 53` is converted to the number that is this integer. -/
theorem toInt?_ofInt {n : Int} (small : n.natAbs ≤ 2 ^ 53) : toInt? (.ofInt n) = some n := by
  cases n with
  | ofNat n => exact toInt?_ofNat small
  | negSucc n =>
    have positive : toInt? (.ofNat (n + 1)) = some (n + 1 : Nat) := toInt?_ofNat small
    change toInt? (-Float.ofNat (n + 1)) = _
    rw [toInt?_neg, positive]
    rfl

end Glean.Number
