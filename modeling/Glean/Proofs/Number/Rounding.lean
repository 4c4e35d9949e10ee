import Glean.Proofs.Number.Position

/-!
# Rounding

Results of arithmetic are rounded to the nearest number, in the middle between two to the one with
an even significand (`IsNearest`). What an operation hands to rounding is a mantissa with two bits
about what is behind it; these keep apart the sides of a middle however far the mantissa is shifted,
and so the rounded number is the one nearest to the value described (`isNearest_of_describes`).
-/

namespace Glean.Number

open Float.Model (UnpackedFloat Format)
open Float.Model.UnpackedFloat

/-! ### Nearest numbers -/

/-- Whether the sign is a minus. -/
def Exact.isNegative : Exact → Bool
  | .notANumber => false
  | .infinite negative | .finite negative _ _ => negative

/-- Whether a number is preferred in the middle: its significand is even, or it is an infinity. -/
def Exact.IsEven : Exact → Prop
  | .finite _ significand _ => significand % 2 = 0
  | _ => True

/-- The number that stands for a magnitude. -/
structure IsNearest (number : Float) (magnitude : ℚ) : Prop where
  /-- It is a number. -/
  defined : number.isNaN = false
  /-- It is not below zero, nor the zero there. -/
  positive : (exact number).isNegative = false
  /-- No number is nearer. -/
  closest : ∀ other : Float, other.isNaN = false →
    |position number - magnitude| ≤ |position other - magnitude|
  /-- It is preferred to another one that is as near. -/
  even : ∀ other : Float, other.isNaN = false →
    |position number - magnitude| = |position other - magnitude| →
      position other = position number ∨ (exact number).IsEven

/-- A whole number next to a value, in the middle between two the even one. -/
structure IsRounded (n : Nat) (value : ℚ) : Prop where
  /-- It is at most half a unit away. -/
  near : |(n : ℚ) - value| ≤ 1 / 2
  /-- It is even when it is half a unit away. -/
  even : |(n : ℚ) - value| = 1 / 2 → n % 2 = 0

section Rounded

variable {n : Nat} {value : ℚ} (rounded : IsRounded n value)
include rounded

/-- Every other whole number is at least half a unit away. -/
theorem IsRounded.other {other : ℤ} (different : other ≠ n) :
    1 / 2 ≤ |(other : ℚ) - value| := by
  have unit : (1 : ℚ) ≤ |(other : ℚ) - n| := by
    exact_mod_cast Int.one_le_abs (sub_ne_zero.2 different)
  have through := abs_sub_le (other : ℚ) value n
  have near := rounded.near
  rw [abs_sub_comm] at near
  linarith

/-- No whole number is nearer. -/
theorem IsRounded.closest (other : ℤ) : |(n : ℚ) - value| ≤ |(other : ℚ) - value| := by
  by_cases same : other = n
  · rw [same, Int.cast_natCast]
  · exact rounded.near.trans (rounded.other same)

/-- When another whole number is as near, the rounded one is even. -/
theorem IsRounded.even_of_eq {other : ℤ} (tie : |(n : ℚ) - value| = |(other : ℚ) - value|) :
    other = n ∨ n % 2 = 0 := by
  by_cases same : other = n
  · exact .inl same
  · refine .inr (rounded.even (le_antisymm rounded.near ?_))
    rw [tie]
    exact rounded.other same

/-- A value below a whole bound is not rounded beyond the bound. -/
theorem IsRounded.le_of_lt {bound : Nat} (below : value < bound) : n ≤ bound := by
  have near := abs_le.1 rounded.near
  have less : (n : ℚ) < (bound + 1 : Nat) := by
    push_cast
    linarith
  exact Nat.lt_succ_iff.1 (by exact_mod_cast less)

/-- A value that reaches a whole bound is not rounded below the bound. -/
theorem IsRounded.le_of_le {bound : Nat} (above : bound ≤ value) : bound ≤ n := by
  have near := abs_le.1 rounded.near
  have less : (bound : ℚ) < (n + 1 : Nat) := by
    push_cast
    linarith
  exact Nat.lt_succ_iff.1 (by exact_mod_cast less)

end Rounded

/-- A magnitude that is rounded in units of a power of two: the result has at most one bit too many,
and where the power is not the least one, the magnitude has all bits. -/
structure RoundsAt (n : Nat) (target : ℤ) (x : ℚ) : Prop where
  /-- The result is the number of units next to the magnitude. -/
  rounded : IsRounded n (x / 2 ^ target)
  /-- It has at most one bit too many. -/
  most : n ≤ 2 ^ 53
  /-- The power is not below the least one. -/
  lower : -1074 ≤ target
  /-- Above the least power all bits are there. -/
  full : -1074 < target → 2 ^ 52 * 2 ^ target ≤ x

/-- A position is a multiple of a power of two unless it is smaller than all numbers with this power
and all bits. -/
theorem position_on_grid (number : Float) {e : ℤ} (upper : e ≤ 1024) :
    (∃ multiple : ℤ, position number = multiple * 2 ^ e) ∨
      -1074 < e ∧ position number < 2 ^ 52 * 2 ^ e := by
  have on {f : ℤ} (up : e ≤ f) : (2 : ℚ) ^ f = (2 ^ (f - e).toNat : ℤ) * 2 ^ e := by
    push_cast
    rw [← zpow_natCast, ← zpow_add₀ (by norm_num), Int.toNat_of_nonneg (by omega)]
    congr 1
    omega
  unfold position
  cases denoted : exact number with
  | notANumber => exact .inl ⟨0, by simp [Exact.position]⟩
  | infinite negative =>
    left
    have last : horizon = (2 ^ (1024 - e).toNat : ℤ) * 2 ^ e := by
      rw [← on upper, horizon_eq]
    cases negative
    · exact ⟨_, last⟩
    · refine ⟨-2 ^ (1024 - e).toNat, ?_⟩
      rw [Int.cast_neg, neg_mul, ← last]
      rfl
  | finite negative significand exponent =>
    obtain ⟨bits, least, -⟩ := exact_bounds denoted
    -- A smaller exponent leaves fewer bits than the grid has above the power.
    by_cases up : e ≤ exponent
    · left
      refine ⟨signed negative significand * 2 ^ (exponent - e).toNat, ?_⟩
      rw [Exact.position, on up]
      push_cast
      ring
    · right
      have scale : (0 : ℚ) < 2 ^ exponent := by positivity
      have half : (2 : ℚ) ^ exponent ≤ 2 ^ (e - 1) := zpow_le_zpow_right₀ (by norm_num) (by omega)
      have most : ((signed negative significand : ℤ) : ℚ) < 2 ^ 53 := by
        have bound : signed negative significand < 2 ^ 53 := by
          cases negative <;> simp only [signed, if_true, Bool.false_eq_true, if_false] <;> omega
        exact_mod_cast bound
      refine ⟨lt_of_le_of_lt least (not_le.1 up), ?_⟩
      calc ((signed negative significand : ℤ) : ℚ) * 2 ^ exponent < 2 ^ 53 * 2 ^ exponent :=
            mul_lt_mul_of_pos_right most scale
        _ ≤ 2 ^ 53 * 2 ^ (e - 1) := mul_le_mul_of_nonneg_left half (by norm_num)
        _ = 2 ^ 52 * 2 ^ e := by rw [zpow_sub_one₀ (by norm_num)]; ring

section Nearest

variable {number : Float} {x : ℚ} (defined : number.isNaN = false)
  (positive : (exact number).isNegative = false)
include defined positive

/-- The number at a rounded magnitude is nearest. -/
theorem isNearest_of_roundsAt {n : Nat} {e : ℤ} (rounds : RoundsAt n e x) (upper : e ≤ 1024)
    (place : position number = n * 2 ^ e) (even : n % 2 = 0 → (exact number).IsEven) :
    IsNearest number x := by
  have scale : (0 : ℚ) < 2 ^ e := by positivity
  have scaled (multiple : ℚ) : |multiple * 2 ^ e - x| = |multiple - x / 2 ^ e| * 2 ^ e := by
    rw [← abs_of_pos scale, ← abs_mul, abs_of_pos scale, sub_mul, div_mul_cancel₀ _ scale.ne']
  have onGrid (multiple : ℤ) : |position number - x| ≤ |(multiple : ℚ) * 2 ^ e - x| := by
    rw [place, scaled, scaled]
    exact mul_le_mul_of_nonneg_right (rounds.rounded.closest multiple) scale.le
  -- Between the grid's numbers there are others near zero only, farther away than one of the grid.
  have offGrid {other : Float} (wide : -1074 < e) (small : position other < 2 ^ 52 * 2 ^ e) :
      |position number - x| < |position other - x| := by
    have large := rounds.full wide
    have near := onGrid (2 ^ 52)
    rw [Int.cast_pow, Int.cast_ofNat,
      abs_of_nonpos (by linarith : (2 : ℚ) ^ 52 * 2 ^ e - x ≤ 0)] at near
    rw [abs_of_nonpos (by linarith : position other - x ≤ 0)]
    linarith
  refine ⟨defined, positive, fun other _ => ?_, fun other _ tie => ?_⟩
  · rcases position_on_grid other upper with ⟨multiple, same⟩ | ⟨wide, small⟩
    · rw [same]
      exact onGrid multiple
    · exact (offGrid wide small).le
  · rcases position_on_grid other upper with ⟨multiple, same⟩ | ⟨wide, small⟩
    · rw [same, place, scaled, scaled] at tie
      rcases rounds.rounded.even_of_eq (mul_right_cancel₀ scale.ne' tie) with equal | twice
      · left
        rw [same, place, equal, Int.cast_natCast]
      · exact .inr (even twice)
    · exact absurd tie (offGrid wide small).ne

/-- Behind all numbers the infinity is nearest. -/
theorem isNearest_of_horizon_le (far : horizon ≤ x) (place : position number = horizon) :
    IsNearest number x := by
  have behind (other : Float) : position other ≤ horizon := (abs_le.1 (abs_position_le other)).2
  have distance (other : Float) : |position other - x| = x - position other := by
    have place := behind other
    rw [abs_of_nonpos (by linarith)]
    ring
  refine ⟨defined, positive, fun other _ => ?_, fun other _ tie => .inl ?_⟩
  · have before := behind other
    rw [distance, distance, place]
    linarith
  · rw [distance, distance] at tie
    linarith

end Nearest

/-! ### The nearest number -/

/-- A number that is defined denotes something. -/
theorem exact_ne_of_defined {x : Float} (defined : x.isNaN = false) : exact x ≠ .notANumber := by
  intro undefined
  have other : x.toModel.unpack.isNaN = false := defined
  rw [exact_eq] at undefined
  cases unpacked : x.toModel.unpack with
  | notANumber =>
    rw [unpacked] at other
    cases other
  | _ =>
    rw [unpacked] at undefined
    cases undefined

/-- Stored numbers at the same place are stored alike. -/
theorem IsStored.eq_of_value_eq {m n : Nat} {e f : ℤ} (left : IsStored m e) (right : IsStored n f)
    (same : (m : ℚ) * 2 ^ e = n * 2 ^ f) : m = n ∧ e = f := by
  have ordered := IsStored.compare_eq left right
  rw [compare_eq_iff_eq.2 same, Ordering.then_eq_eq] at ordered
  exact ⟨compare_eq_iff_eq.1 ordered.2, compare_eq_iff_eq.1 ordered.1⟩

/-- A number that is not below zero is infinity, or so many units of a power of two. -/
theorem positive_cases {x : Float} (defined : x.isNaN = false)
    (positive : (exact x).isNegative = false) :
    (exact x = .infinite false ∧ position x = horizon) ∨
      ∃ m e, exact x = .finite false m e ∧ IsStored m e ∧ position x = m * 2 ^ e := by
  have some := exact_ne_of_defined defined
  have stored := isStored_exact x
  unfold position
  cases denoted : exact x with
  | notANumber => exact absurd denoted some
  | infinite negative =>
    rw [denoted] at positive
    obtain rfl : negative = false := positive
    exact .inl ⟨rfl, rfl⟩
  | finite negative m e =>
    rw [denoted] at positive stored
    obtain rfl : negative = false := positive
    exact .inr ⟨m, e, rfl, stored, rfl⟩

/-- The number for stored units. -/
theorem exists_of_isStored {m : Nat} {e : ℤ} (stored : IsStored m e) (some : 0 < m) :
    ∃ x : Float, x.isNaN = false ∧ position x = m * 2 ^ e := by
  have unpacked : (Float.ofModel (.pack (.finite .positive m e some))).toModel.unpack =
      .finite .positive m e some := unpack_pack_of_stored (a := .finite .positive m e some) stored
  refine ⟨.ofModel (.pack (.finite .positive m e some)), ?_, ?_⟩
  · change (Float.ofModel (.pack (.finite .positive m e some))).toModel.unpack.isNaN = false
    rw [unpacked]
    rfl
  · rw [position, exact_eq, unpacked, position_positive]

/-- Numbers that are not below zero and lie at the same place are the same. -/
theorem eq_of_position_eq {x y : Float} (one : x.isNaN = false) (other : y.isNaN = false)
    (positive : (exact x).isNegative = false) (positive' : (exact y).isNegative = false)
    (same : position x = position y) : x = y := by
  apply exact_injective
  rcases positive_cases one positive with ⟨left, place⟩ | ⟨m, e, left, stored, place⟩
  · rcases positive_cases other positive' with ⟨right, place'⟩ | ⟨n, f, right, stored', place'⟩
    · rw [left, right]
    · rw [place, place'] at same
      exact absurd same stored'.lt_horizon.ne'
  · rcases positive_cases other positive' with ⟨right, place'⟩ | ⟨n, f, right, stored', place'⟩
    · rw [place, place'] at same
      exact absurd same stored.lt_horizon.ne
    · rw [place, place'] at same
      obtain ⟨rfl, rfl⟩ := stored.eq_of_value_eq stored' same
      rw [left, right]

/-- Between two numbers with even significands there is another number. -/
theorem exists_between {x y : Float} (one : x.isNaN = false) (other : y.isNaN = false)
    (positive : (exact x).isNegative = false) (positive' : (exact y).isNegative = false)
    (even : (exact x).IsEven) (even' : (exact y).IsEven) (less : position x < position y) :
    ∃ z : Float, z.isNaN = false ∧ position x < position z ∧ position z < position y := by
  rcases positive_cases one positive with ⟨-, place⟩ | ⟨m, e, denoted, stored, place⟩
  · exact absurd (place ▸ less) (not_lt.2 (abs_le.1 (abs_position_le y)).2)
  -- The significand after an even one is stored with the same exponent.
  have next : IsStored (m + 1) e := by
    obtain ⟨most, lower, upper, least⟩ := stored
    rw [denoted] at even
    have even : m % 2 = 0 := even
    exact ⟨by omega, lower, upper, fun short => least (by omega)⟩
  obtain ⟨z, defined, middle⟩ := exists_of_isStored next (Nat.succ_pos m)
  have scale : (0 : ℚ) < 2 ^ e := by positivity
  refine ⟨z, defined, ?_, ?_⟩
  · rw [place, middle]
    exact mul_lt_mul_of_pos_right (by exact_mod_cast Nat.lt_succ_self m) scale
  rw [middle]
  rcases positive_cases other positive' with ⟨-, place'⟩ | ⟨n, f, denoted', stored', place'⟩
  · rw [place']
    exact next.lt_horizon
  · rw [place, place'] at less
    rw [place']
    rcases lt_trichotomy e f with below | rfl | above
    · exact next.lt_of_exponent_lt stored' below
    · have more : m < n := by exact_mod_cast lt_of_mul_lt_mul_right less scale.le
      rw [denoted] at even
      rw [denoted'] at even'
      have even : m % 2 = 0 := even
      have even' : n % 2 = 0 := even'
      have far : m + 1 < n := by omega
      exact mul_lt_mul_of_pos_right (by exact_mod_cast far) scale
    · exact absurd (stored'.lt_of_exponent_lt stored above) less.asymm

/-- No nearest number lies before another one. -/
theorem IsNearest.not_before {x y : Float} {magnitude : ℚ} (one : IsNearest x magnitude)
    (other : IsNearest y magnitude) : ¬position x < position y := by
  intro less
  have tie : |position x - magnitude| = |position y - magnitude| :=
    le_antisymm (one.closest y other.defined) (other.closest x one.defined)
  have even := (one.even y other.defined tie).resolve_left less.ne'
  have even' := (other.even x one.defined tie.symm).resolve_left less.ne
  obtain ⟨z, defined, after, before⟩ :=
    exists_between one.defined other.defined one.positive other.positive even even' less
  have closest := one.closest z defined
  have middle : position x - magnitude = -(position y - magnitude) := by
    rcases abs_eq_abs.1 tie with same | opposite
    · linarith
    · exact opposite
  have nearer : |position z - magnitude| < |position x - magnitude| := by
    rw [abs_of_nonpos (by linarith : position x - magnitude ≤ 0), abs_lt]
    constructor <;> linarith
  exact absurd closest (not_le.2 nearer)

/-- The nearest number is one number. -/
theorem IsNearest.unique {x y : Float} {magnitude : ℚ} (one : IsNearest x magnitude)
    (other : IsNearest y magnitude) : x = y :=
  eq_of_position_eq one.defined other.defined one.positive other.positive
    (le_antisymm (not_lt.1 (other.not_before one)) (not_lt.1 (one.not_before other)))

/-! ### Extended mantissas -/

/-- An extended mantissa describes a value: it has its integer part, the first bit behind it, and
whether there is anything else. -/
def Describes (extended : ExtendedMantissa) (value : ℚ) : Prop :=
  ∃ rest : ℚ, 0 ≤ rest ∧ rest < 1 ∧ (extended.stickyBit = true ↔ rest ≠ 0) ∧
    2 * value = 2 * extended.mantissa + extended.roundBit.toNat + rest

section Described

variable {extended : ExtendedMantissa} {value : ℚ} (described : Describes extended value)
include described

/-- The mantissa is what is left of the value without its fraction. -/
theorem Describes.mantissa_le : extended.mantissa ≤ value := by
  obtain ⟨rest, least, -, -, same⟩ := described
  have bit : (0 : ℚ) ≤ extended.roundBit.toNat := by positivity
  linarith

/-- The value is less than one above the mantissa. -/
theorem Describes.lt_mantissa : value < extended.mantissa + 1 := by
  obtain ⟨rest, -, most, -, same⟩ := described
  have bit : (extended.roundBit.toNat : ℚ) ≤ 1 := by exact_mod_cast Bool.toNat_le _
  linarith

/-- A shift by one place halves the value. -/
theorem Describes.shiftRightOne : Describes extended.shiftRightOne (value / 2) := by
  obtain ⟨rest, least, most, sticky, same⟩ := described
  have split : ((extended.mantissa / 2 : Nat) : ℚ) * 2 + (extended.mantissa % 2 : Nat) =
      extended.mantissa := by
    exact_mod_cast Nat.div_add_mod' extended.mantissa 2
  have bit : (extended.mantissa % 2 != 0).toNat = extended.mantissa % 2 := by
    rcases Nat.mod_two_eq_zero_or_one extended.mantissa with zero | one
    · rw [zero]; rfl
    · rw [one]; rfl
  have some : (0 : ℚ) ≤ extended.roundBit.toNat := by positivity
  have few : (extended.roundBit.toNat : ℚ) ≤ 1 := by exact_mod_cast Bool.toNat_le _
  refine ⟨(extended.roundBit.toNat + rest) / 2, by linarith, by linarith, ?_, ?_⟩
  · change (extended.roundBit || extended.stickyBit) = true ↔ _
    cases extended.roundBit with
    | false =>
      rw [Bool.false_or, sticky]
      simp
    | true =>
      rw [Bool.true_or]
      refine iff_of_true rfl fun zero => ?_
      simp only [Bool.toNat_true, Nat.cast_one] at zero
      linarith
  · change 2 * (value / 2) = 2 * ((extended.mantissa / 2 : Nat) : ℚ) +
      ((extended.mantissa % 2 != 0).toNat : ℚ) + _
    rw [bit]
    linarith

/-- A shift divides the value by a power of two. -/
theorem Describes.shiftRight (places : Nat) :
    Describes (extended >>> places) (value / 2 ^ places) := by
  induction places with
  | zero =>
    rw [pow_zero, div_one]
    exact described
  | succ places ih =>
    rw [pow_succ, ← div_div]
    exact ih.shiftRightOne

/-- The rounded mantissa is the value rounded. -/
theorem Describes.isRounded : IsRounded extended.roundedMantissa value := by
  obtain ⟨rest, least, most, sticky, same⟩ := described
  obtain ⟨mantissa, roundBit, stickyBit⟩ := extended
  have away (n : Nat) (distance : ℚ) (eq : (n : ℚ) - value = distance)
      (bound : |distance| < 1 / 2) : IsRounded n value := by
    rw [← eq] at bound
    exact ⟨bound.le, fun half => absurd half bound.ne⟩
  cases roundBit with
  | false =>
    simp only [Bool.toNat_false, Nat.cast_zero, add_zero] at same
    refine away _ (-rest / 2) ?_ (abs_lt.2 ⟨by linarith, by linarith⟩)
    cases stickyBit <;> change (mantissa : ℚ) - value = _ <;> linarith
  | true =>
    simp only [Bool.toNat_true, Nat.cast_one] at same
    cases stickyBit with
    | true =>
      have positive : 0 < rest := lt_of_le_of_ne least (sticky.1 rfl).symm
      refine away _ ((1 - rest) / 2) ?_ (abs_lt.2 ⟨by linarith, by linarith⟩)
      change ((mantissa + 1 : Nat) : ℚ) - value = _
      push_cast
      linarith
    | false =>
      have nothing : rest = 0 := by
        by_contra some
        exact Bool.noConfusion (sticky.2 some)
      refine ⟨?_, fun _ => ?_⟩
      · change |((mantissa + mantissa % 2 : Nat) : ℚ) - value| ≤ 1 / 2
        rw [abs_le]
        rcases Nat.mod_two_eq_zero_or_one mantissa with zero | one
        · rw [zero]
          constructor <;> push_cast <;> linarith
        · rw [one]
          constructor <;> push_cast <;> linarith
      · change (mantissa + mantissa % 2) % 2 = 0
        omega

end Described

/-! ### Rounded mantissas -/

/-- The exponent to which a mantissa is shifted. -/
theorem targetExponent_totalExponent (mantissa : Nat) (exponent : ℤ) :
    Format.binary64.targetExponent (Float.Model.totalExponent mantissa exponent) =
      max (mantissa.log2 + exponent - 52) (-1074) := by
  change max ((mantissa.log2 : ℤ) + 1 + exponent - 53) (-1074) = _
  omega

/-- The mantissa after a carry: one bit more than there are is shifted out. -/
def carriedMantissa (n : Nat) : Nat := if n = 2 ^ 53 then 2 ^ 52 else n

/-- The exponent after a carry. -/
def carriedExponent (n : Nat) (target : ℤ) : ℤ := if n = 2 ^ 53 then target + 1 else target

/-- So many units of a power of two, after a carry. -/
def ofUnits (n : Nat) (target : ℤ) : UnpackedFloat :=
  if zero : carriedMantissa n = 0 then .zero .positive
  else .finite .positive (carriedMantissa n) (carriedExponent n target) (Nat.pos_of_ne_zero zero)

/-- A mantissa and an exponent after a carry make these units. -/
theorem eq_ofUnits {n m : Nat} {target e : ℤ} (mantissa : m = carriedMantissa n)
    (exponent : e = carriedExponent n target) :
    (if zero : m = 0 then UnpackedFloat.zero .positive
      else .finite .positive m e (Nat.pos_of_ne_zero zero)) = ofUnits n target := by
  subst mantissa exponent
  rfl

/-- A rounded mantissa that needs one bit more than there are is shifted once more. -/
theorem shiftToTargetExponent_rounded {n : Nat} {e : ℤ} (lower : -1074 ≤ e) (most : n ≤ 2 ^ 53) :
    (shiftToTargetExponent Format.binary64 n e .exact).1.mantissa = carriedMantissa n ∧
      (shiftToTargetExponent Format.binary64 n e .exact).2 = carriedExponent n e := by
  unfold carriedMantissa carriedExponent
  by_cases carried : n = 2 ^ 53
  · have target : max (((2 ^ 53 : Nat).log2 : ℤ) + e - 52) (-1074) = e + 1 := by
      rw [Nat.log2_two_pow]
      omega
    have places : (e + 1 - e).toNat = 1 := by omega
    rw [if_pos carried, if_pos carried, carried]
    unfold shiftToTargetExponent shiftToExponent
    simp only [targetExponent_totalExponent, target, places]
    exact ⟨rfl, rfl⟩
  · have bits : n.log2 ≤ 52 := by
      rcases Nat.eq_zero_or_pos n with rfl | positive
      · decide
      · exact Nat.le_of_lt_succ ((Nat.log2_lt positive.ne').2 (by omega))
    have places : (max ((n.log2 : ℤ) + e - 52) (-1074) - e).toNat = 0 := by omega
    rw [if_neg carried, if_neg carried]
    unfold shiftToTargetExponent shiftToExponent
    simp only [targetExponent_totalExponent, places]
    exact ⟨rfl, add_zero e⟩

section Described

variable {mantissa : Nat} {exponent : ℤ} {accuracy : Accuracy} {x : ℚ}
  (described : Describes (.ofMantissaAndAccuracy mantissa accuracy) (x / 2 ^ exponent))
include described

/-- The mantissa is that of the described value. -/
theorem mantissa_bounds :
    (mantissa : ℚ) * 2 ^ exponent ≤ x ∧ x < (mantissa + 1 : Nat) * 2 ^ exponent := by
  have scale : (0 : ℚ) < 2 ^ exponent := by positivity
  have kept : (ExtendedMantissa.ofMantissaAndAccuracy mantissa accuracy).mantissa = mantissa := by
    cases accuracy with
    | exact => rfl
    | inexact side => cases side <;> rfl
  have lower := described.mantissa_le
  have upper := described.lt_mantissa
  rw [kept] at lower upper
  rw [le_div_iff₀ scale] at lower
  rw [div_lt_iff₀ scale] at upper
  push_cast
  exact ⟨lower, upper⟩

variable (low : exponent ≤ max (mantissa.log2 + exponent - 52) (-1074))
include low

/-- At the exponent that is aimed at, the value has at most as many bits as there are, and less only
at the least exponent. -/
theorem target_bounds {target : ℤ} (aim : max (mantissa.log2 + exponent - 52) (-1074) = target) :
    x / 2 ^ target < (2 ^ 53 : Nat) ∧ (-1074 < target → 2 ^ 52 * 2 ^ target ≤ x) := by
  obtain ⟨lower, upper⟩ := mantissa_bounds described
  have scale : (0 : ℚ) < 2 ^ exponent := by positivity
  constructor
  · have bits : mantissa + 1 ≤ 2 ^ (mantissa.log2 + 1) := Nat.lt_log2_self
    rw [div_lt_iff₀ (by positivity)]
    calc x < (mantissa + 1 : Nat) * 2 ^ exponent := upper
      _ ≤ (2 ^ (mantissa.log2 + 1) : Nat) * 2 ^ exponent :=
          mul_le_mul_of_nonneg_right (by exact_mod_cast bits) scale.le
      _ = 2 ^ ((mantissa.log2 + 1 : Nat) + exponent) := by
          rw [zpow_add₀ (by norm_num), zpow_natCast]
          push_cast
          rfl
      _ ≤ 2 ^ ((53 : Nat) + target) := zpow_le_zpow_right₀ (by norm_num) (by omega)
      _ = (2 ^ 53 : Nat) * 2 ^ target := by
          rw [zpow_add₀ (by norm_num), zpow_natCast]
          push_cast
          rfl
  · intro wide
    have some : mantissa ≠ 0 := by
      rintro rfl
      rw [Nat.log2_zero] at low aim
      omega
    have bits : 2 ^ mantissa.log2 ≤ mantissa := Nat.log2_self_le some
    calc (2 : ℚ) ^ 52 * 2 ^ target = 2 ^ ((52 : Nat) + target) := by
          rw [zpow_add₀ (by norm_num), zpow_natCast]
      _ = 2 ^ ((mantissa.log2 : ℤ) + exponent) := by
          congr 1
          omega
      _ = (2 ^ mantissa.log2 : Nat) * 2 ^ exponent := by
          rw [zpow_add₀ (by norm_num), zpow_natCast]
          push_cast
          rfl
      _ ≤ mantissa * 2 ^ exponent :=
          mul_le_mul_of_nonneg_right (by exact_mod_cast bits) scale.le
      _ ≤ x := lower

/-- What rounding makes of a mantissa: the described value, rounded at the exponent aimed at. -/
theorem exists_roundsAt : ∃ (n : Nat) (target : ℤ), RoundsAt n target x ∧
    roundWithAccuracy Format.binary64 .positive mantissa exponent accuracy = ofUnits n target := by
  obtain ⟨target, aim⟩ : ∃ target, max (mantissa.log2 + exponent - 52) (-1074) = target := ⟨_, rfl⟩
  obtain ⟨fits, full⟩ := target_bounds described low aim
  obtain ⟨places, shift⟩ : ∃ places, places = (target - exponent).toNat := ⟨_, rfl⟩
  have reached : exponent + places = target := by omega
  have shifted : Describes (ExtendedMantissa.ofMantissaAndAccuracy mantissa accuracy >>> places)
      (x / 2 ^ target) := by
    have described := described.shiftRight places
    rwa [div_div, ← zpow_natCast, ← zpow_add₀ (by norm_num), reached] at described
  have first : shiftToTargetExponent Format.binary64 mantissa exponent accuracy =
      (ExtendedMantissa.ofMantissaAndAccuracy mantissa accuracy >>> places, target) := by
    unfold shiftToTargetExponent shiftToExponent
    simp only [targetExponent_totalExponent, aim, ← shift, reached]
  have rounded := shifted.isRounded
  have rounds : RoundsAt _ target x := ⟨rounded, rounded.le_of_lt fits, by omega, full⟩
  obtain ⟨second, last⟩ := shiftToTargetExponent_rounded rounds.lower rounds.most
  refine ⟨_, target, rounds, ?_⟩
  unfold roundWithAccuracy
  rw [first]
  exact eq_ofUnits second last

end Described

/-! ### Packed results -/

/-- After a carry the units are as many times larger as there are fewer. -/
theorem carried_mul (n : Nat) (target : ℤ) :
    (carriedMantissa n : ℚ) * 2 ^ carriedExponent n target = n * 2 ^ target := by
  unfold carriedMantissa carriedExponent
  split
  · rename_i carried
    rw [carried, zpow_add_one₀ (by norm_num)]
    push_cast
    ring
  · rfl

/-- A number with an exponent that is too large is packed as an infinity. -/
theorem pack_of_large (sign : Sign) {m : Nat} {e : ℤ} (large : 972 ≤ e) (positive : 0 < m) :
    pack Format.binary64 (.finite sign m e positive) = packedInfinity Format.binary64 sign := by
  have overflow : 2 ^ Format.binary64.exponentBits ≤ (e + Format.binary64.exponentBias +
      Format.binary64.mantissaBitsWithoutImplicit).toNat + 1 := by
    change 2048 ≤ (e + 1023 + 52).toNat + 1
    omega
  rw [pack_finite, if_pos overflow]

/-- An infinity is packed without loss. -/
theorem unpack_packedInfinity (sign : Sign) :
    unpack Format.binary64 (packedInfinity Format.binary64 sign) = .infinity sign := by
  cases sign <;> rfl

/-- A number is defined when its unpacked form is. -/
theorem isNaN_of_unpack {number : Float} {unpacked : UnpackedFloat}
    (same : number.toModel.unpack = unpacked) (defined : unpacked.isNaN = false) :
    number.isNaN = false := by
  change number.toModel.unpack.isNaN = false
  rw [same]
  exact defined

section Packed

variable {n : Nat} {target : ℤ} {x : ℚ} (rounds : RoundsAt n target x)
include rounds

/-- Above the least power the result has all bits. -/
theorem RoundsAt.least (wide : -1074 < target) : 2 ^ 52 ≤ n := by
  apply rounds.rounded.le_of_le
  rw [le_div_iff₀ (by positivity)]
  push_cast
  exact rounds.full wide

/-- A carried mantissa has the form in which a word stores it but for the largest exponent. -/
theorem RoundsAt.carried_bounds : carriedMantissa n < 2 ^ 53 ∧ -1074 ≤ carriedExponent n target ∧
    (carriedMantissa n < 2 ^ 52 → carriedExponent n target = -1074) ∧
    (n % 2 = 0 → carriedMantissa n % 2 = 0) := by
  have most := rounds.most
  have lower := rounds.lower
  have least := rounds.least
  unfold carriedMantissa carriedExponent
  split <;> omega

variable {number : Float}

/-- A rounded magnitude that a word can store is packed as its nearest number. -/
theorem RoundsAt.isNearest_of_stored (upper : carriedExponent n target ≤ 971)
    (unpacked : number.toModel.unpack = ofUnits n target) : IsNearest number x := by
  obtain ⟨-, -, -, parity⟩ := rounds.carried_bounds
  have below : target ≤ 1024 := by
    unfold carriedExponent at upper
    split at upper <;> omega
  have same := carried_mul n target
  by_cases zero : carriedMantissa n = 0
  · rw [ofUnits, dif_pos zero] at unpacked
    have denoted : exact number = .finite false 0 (-1074) := by
      rw [exact_eq, unpacked]
      rfl
    rw [zero, Nat.cast_zero, zero_mul] at same
    refine isNearest_of_roundsAt (isNaN_of_unpack unpacked rfl) (by rw [denoted]; rfl) rounds below
      ?_ fun _ => by rw [denoted]; rfl
    rw [position, denoted, ← same]
    exact zero_mul _
  · rw [ofUnits, dif_neg zero] at unpacked
    have denoted : exact number =
        .finite false (carriedMantissa n) (carriedExponent n target) := by
      rw [exact_eq, unpacked]
      rfl
    refine isNearest_of_roundsAt (isNaN_of_unpack unpacked rfl) (by rw [denoted]; rfl) rounds below
      ?_ fun even => by rw [denoted]; exact parity even
    rw [position, denoted, ← same]
    rfl

/-- A rounded magnitude with too large an exponent is packed as infinity, its nearest number. -/
theorem RoundsAt.isNearest_of_large (large : 972 ≤ carriedExponent n target)
    (unpacked : number.toModel.unpack = .infinity .positive) : IsNearest number x := by
  obtain ⟨-, -, bits, -⟩ := rounds.carried_bounds
  have denoted : exact number = .infinite false := by
    rw [exact_eq, unpacked]
    rfl
  have place : position number = horizon := by
    rw [position, denoted]
    rfl
  have last : (2 : ℚ) ^ 52 * 2 ^ (972 : ℤ) = horizon := by
    rw [horizon_eq, ← zpow_natCast, ← zpow_add₀ (by norm_num)]
    norm_num
  have defined := isNaN_of_unpack unpacked rfl
  have positive : (exact number).isNegative = false := by
    rw [denoted]
    rfl
  by_cases inside : target ≤ 971
  · -- The carry alone leads out, and it leads to the horizon.
    have carried : n = 2 ^ 53 ∧ target = 971 := by
      unfold carriedExponent at large
      split at large <;> omega
    refine isNearest_of_roundsAt defined positive rounds (by omega) ?_ fun _ => by
      rw [denoted]
      trivial
    rw [place, ← last, carried.1, carried.2, show (972 : ℤ) = 971 + 1 from rfl,
      zpow_add_one₀ (by norm_num), Nat.cast_pow, Nat.cast_ofNat]
    ring
  · apply isNearest_of_horizon_le defined positive _ place
    rw [← last]
    refine le_trans ?_ (rounds.full (by omega))
    exact mul_le_mul_of_nonneg_left (zpow_le_zpow_right₀ (by norm_num) (by omega)) (by norm_num)

/-- A rounded magnitude is packed as its nearest number. -/
theorem RoundsAt.isNearest
    (unpacked : number.toModel.unpack =
      unpack Format.binary64 (pack Format.binary64 (ofUnits n target))) :
    IsNearest number x := by
  obtain ⟨most, lower, bits, -⟩ := rounds.carried_bounds
  by_cases upper : carriedExponent n target ≤ 971
  · refine rounds.isNearest_of_stored upper (unpacked.trans (unpack_pack_of_stored ?_))
    by_cases zero : carriedMantissa n = 0
    · rw [ofUnits, dif_pos zero]
      exact ⟨by decide, by decide, by decide, fun _ => rfl⟩
    · rw [ofUnits, dif_neg zero]
      exact ⟨most, lower, upper, bits⟩
  · refine rounds.isNearest_of_large (by omega) (unpacked.trans ?_)
    have some : carriedMantissa n ≠ 0 := by
      intro zero
      have least := bits (by omega)
      omega
    rw [ofUnits, dif_neg some, pack_of_large .positive (by omega), unpack_packedInfinity]

end Packed

/-- A mantissa that describes a magnitude is rounded and packed as the nearest number. -/
theorem isNearest_of_describes {mantissa : Nat} {exponent : ℤ} {accuracy : Accuracy} {x : ℚ}
    {number : Float} (low : exponent ≤ max (mantissa.log2 + exponent - 52) (-1074))
    (described : Describes (.ofMantissaAndAccuracy mantissa accuracy) (x / 2 ^ exponent))
    (unpacked : number.toModel.unpack = unpack Format.binary64 (pack Format.binary64
      (roundWithAccuracy Format.binary64 .positive mantissa exponent accuracy))) :
    IsNearest number x := by
  obtain ⟨n, target, rounds, same⟩ := exists_roundsAt described low
  rw [same] at unpacked
  exact rounds.isNearest unpacked

end Glean.Number
