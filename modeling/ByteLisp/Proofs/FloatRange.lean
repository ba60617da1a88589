import Mathlib.Algebra.Order.Field.Power
import Mathlib.Data.Nat.Log
import Mathlib.Data.Rat.Cast.Order
import Mathlib.Tactic.GCongr
import Mathlib.Tactic.Linarith
import Mathlib.Tactic.NormNum
import Mathlib.Tactic.Positivity
import Mathlib.Tactic.Ring

/-!
# Products that stay in range

A double precision number is found by rounding an exact value to 53 bits, which changes it by
at most half a unit in the last place. So a product of two numbers whose exact value is below
`2 ^ 1024 - 2 ^ 970` is not infinite, and neither a conversion from an integer nor a power of
ten is further off than by a part in `2 ^ 53`.
-/

namespace ByteLisp

namespace FloatRange

open Float.Model Float.Model.UnpackedFloat

/-! ## Rounding -/

/-- Shifting divides the mantissa by a power of two, rounded down. -/
theorem mantissa_shift (extended : ExtendedMantissa) (amount : Nat) :
    (extended >>> amount).mantissa = extended.mantissa / 2 ^ amount := by
  induction amount with
  | zero => simp [HShiftRight.hShiftRight, Nat.repeat]
  | succ amount ih =>
      change (extended >>> amount).mantissa / 2 = _
      rw [ih, Nat.div_div_eq_div_mul, Nat.pow_succ]

/-- The mantissa without its last `amount` bits, rounded to the nearest one. -/
def rounded (mantissa amount : Nat) : Nat :=
  (ExtendedMantissa.ofMantissaAndAccuracy mantissa .exact >>> amount).roundedMantissa

/-- Rounding adds at most the bit that was shifted out last. -/
theorem roundedMantissa_bounds (extended : ExtendedMantissa) :
    extended.mantissa ≤ extended.roundedMantissa ∧
      extended.roundedMantissa ≤ extended.mantissa + extended.roundBit.toNat := by
  obtain ⟨mantissa, roundBit, stickyBit⟩ := extended
  cases roundBit <;> cases stickyBit <;>
    simp [ExtendedMantissa.roundedMantissa, ExtendedMantissa.accuracy, Accuracy.roundToNearestEven]
  omega

/-- Without a shift there is nothing to round. -/
theorem rounded_zero (mantissa : Nat) : rounded mantissa 0 = mantissa :=
  rfl

/-- Rounding never goes below the quotient rounded down. -/
theorem div_le_rounded (mantissa amount : Nat) : mantissa / 2 ^ amount ≤ rounded mantissa amount := by
  have bound := (roundedMantissa_bounds
    (ExtendedMantissa.ofMantissaAndAccuracy mantissa .exact >>> amount)).1
  rwa [mantissa_shift] at bound

/-- Rounding raises the mantissa by at most half of what is cut off. -/
theorem rounded_succ_le (mantissa amount : Nat) :
    rounded mantissa (amount + 1) * 2 ^ (amount + 1) ≤ mantissa + 2 ^ amount := by
  have bound := (roundedMantissa_bounds
    (ExtendedMantissa.ofMantissaAndAccuracy mantissa .exact >>> (amount + 1))).2
  have bit : (ExtendedMantissa.ofMantissaAndAccuracy mantissa .exact >>> (amount + 1)).roundBit =
      (mantissa / 2 ^ amount % 2 != 0) := by
    change ((ExtendedMantissa.ofMantissaAndAccuracy mantissa .exact >>> amount).mantissa % 2 != 0) = _
    rw [mantissa_shift]
    rfl
  rw [mantissa_shift, bit] at bound
  change rounded mantissa (amount + 1) ≤ mantissa / 2 ^ (amount + 1) + _ at bound
  have half : mantissa / 2 ^ (amount + 1) = mantissa / 2 ^ amount / 2 := by
    rw [Nat.div_div_eq_div_mul, Nat.pow_succ]
  have below : mantissa / 2 ^ amount * 2 ^ amount ≤ mantissa := Nat.div_mul_le_self _ _
  rw [half] at bound
  have twice : 2 * rounded mantissa (amount + 1) ≤ mantissa / 2 ^ amount + 1 := by
    rcases Nat.mod_two_eq_zero_or_one (mantissa / 2 ^ amount) with even | odd
    · simp [even] at bound
      omega
    · simp [odd] at bound
      omega
  calc rounded mantissa (amount + 1) * 2 ^ (amount + 1)
      = 2 * rounded mantissa (amount + 1) * 2 ^ amount := by rw [Nat.pow_succ]; ac_rfl
    _ ≤ (mantissa / 2 ^ amount + 1) * 2 ^ amount := Nat.mul_le_mul_right _ twice
    _ ≤ mantissa + 2 ^ amount := by
      rw [Nat.add_mul, Nat.one_mul]
      omega

/-- A double has fifty-three bits of mantissa. -/
theorem mantissaBits_binary64 : Format.binary64.mantissaBits = 53 :=
  rfl

/-- A wide mantissa is shifted until fifty-three bits are left. -/
theorem shiftToTargetExponent_eq {mantissa : Nat} {exponent : Int} (wide : 52 ≤ mantissa.log2)
    (normal : -1022 ≤ mantissa.log2 + exponent) :
    shiftToTargetExponent .binary64 mantissa exponent .exact =
      (ExtendedMantissa.ofMantissaAndAccuracy mantissa .exact >>> (mantissa.log2 - 52),
        exponent + (mantissa.log2 - 52 : Nat)) := by
  have target : Format.binary64.targetExponent (totalExponent mantissa exponent) - exponent =
      (mantissa.log2 - 52 : Nat) := by
    simp only [Format.targetExponent, totalExponent, mantissaBits_binary64, Format.minExponent]
    omega
  rw [shiftToTargetExponent, shiftToExponent, target, Int.toNat_natCast]

/-- The binary logarithm of a number is found from the powers of two around it. -/
theorem log2_eq_of_bounds {n k : Nat} (low : 2 ^ k ≤ n) (high : n < 2 ^ (k + 1)) : n.log2 = k := by
  have positive : n ≠ 0 := by
    have := Nat.two_pow_pos k
    omega
  have least := (Nat.le_log2 positive).mpr low
  have greatest := (Nat.log2_lt positive).mpr high
  omega

/-- A rounded mantissa keeps its fifty-three bits. -/
theorem two_pow_le_rounded {mantissa : Nat} (wide : 52 ≤ mantissa.log2) :
    2 ^ 52 ≤ rounded mantissa (mantissa.log2 - 52) := by
  have positive : mantissa ≠ 0 := by
    rintro rfl
    simp at wide
  refine Nat.le_trans ?_ (div_le_rounded mantissa (mantissa.log2 - 52))
  rw [Nat.le_div_iff_mul_le (Nat.two_pow_pos _), ← Nat.pow_add, Nat.add_sub_cancel' wide]
  exact Nat.log2_self_le positive

/-- Rounding can reach the next power of two, and nothing above it. -/
theorem rounded_le_two_pow {mantissa : Nat} (wide : 52 ≤ mantissa.log2) :
    rounded mantissa (mantissa.log2 - 52) ≤ 2 ^ 53 := by
  have below : mantissa < 2 ^ (mantissa.log2 + 1) := Nat.lt_log2_self
  obtain ⟨amount, width⟩ := Nat.exists_eq_add_of_le wide
  rw [width, Nat.add_sub_cancel_left]
  cases amount with
  | zero =>
      rw [width] at below
      exact Nat.le_of_lt below
  | succ amount =>
      have bound := rounded_succ_le mantissa amount
      by_contra above
      have least := Nat.mul_le_mul_right (2 ^ (amount + 1)) (Nat.lt_of_not_le above)
      have whole : 2 ^ (mantissa.log2 + 1) = 2 ^ 53 * 2 ^ (amount + 1) := by
        rw [width, ← Nat.pow_add]
        congr 1
        omega
      have double : 2 ^ (amount + 1) = 2 * 2 ^ amount := by rw [Nat.pow_succ]; ac_rfl
      have positive := Nat.two_pow_pos amount
      rw [Nat.succ_mul] at least
      omega

/-- The number with a rounded mantissa; a mantissa that has become too wide is halved. -/
def settle (sign : Sign) (mantissa : Nat) (exponent : Int) : UnpackedFloat :=
  let (final, power) := shiftToTargetExponent .binary64 mantissa exponent .exact
  if h : final.mantissa = 0 then .zero sign
  else .finite sign final.mantissa power (Nat.pos_of_ne_zero h)

/-- Rounding a wide mantissa in the normal range is one shift, and what becomes of its result. -/
theorem roundWithAccuracy_eq (sign : Sign) {mantissa : Nat} {exponent : Int}
    (wide : 52 ≤ mantissa.log2) (normal : -1022 ≤ mantissa.log2 + exponent) :
    roundWithAccuracy .binary64 sign mantissa exponent .exact =
      settle sign (rounded mantissa (mantissa.log2 - 52))
        (exponent + (mantissa.log2 - 52 : Nat)) := by
  rw [roundWithAccuracy, shiftToTargetExponent_eq wide normal]
  rfl

/-- A normal number with a value, whatever its sign is. -/
def Normal (x : UnpackedFloat) (value : ℚ) : Prop :=
  ∃ sign mantissa exponent positive, x = .finite sign mantissa exponent positive ∧
    mantissa.log2 = 52 ∧ -1074 ≤ exponent ∧ value = mantissa * 2 ^ exponent

/-- Settling shifts a mantissa to fifty-three bits and adds the shift to the exponent. -/
theorem settle_eq (sign : Sign) {mantissa kept : Nat} {exponent power : Int}
    (wide : 52 ≤ mantissa.log2) (normal : -1022 ≤ mantissa.log2 + exponent) (positive : 0 < kept)
    (kept_eq : mantissa / 2 ^ (mantissa.log2 - 52) = kept)
    (power_eq : exponent + (mantissa.log2 - 52 : Nat) = power) :
    settle sign mantissa exponent = .finite sign kept power positive := by
  have shifted : (ExtendedMantissa.ofMantissaAndAccuracy mantissa .exact >>>
      (mantissa.log2 - 52)).mantissa = kept := (mantissa_shift _ _).trans kept_eq
  subst shifted power_eq
  rw [settle, shiftToTargetExponent_eq wide normal]
  exact dif_neg positive.ne'

/-- A rounded mantissa settles to a normal number of the same value. -/
theorem normal_settle (sign : Sign) {mantissa : Nat} {exponent : Int} (low : 2 ^ 52 ≤ mantissa)
    (high : mantissa ≤ 2 ^ 53) (least : -1074 ≤ exponent) :
    Normal (settle sign mantissa exponent) (mantissa * 2 ^ exponent) := by
  have wide : 52 ≤ mantissa.log2 := (Nat.le_log2 (by omega)).mpr low
  rcases Nat.lt_or_eq_of_le high with below | rfl
  · have width : mantissa.log2 = 52 := log2_eq_of_bounds low below
    refine ⟨sign, mantissa, exponent, by omega, settle_eq sign wide (by omega) _ ?_ ?_, width,
      least, rfl⟩
    · rw [width, Nat.sub_self, Nat.pow_zero, Nat.div_one]
    · rw [width, Nat.sub_self, Int.natCast_zero, Int.add_zero]
  · have width : (2 ^ 53 : Nat).log2 = 53 := Nat.log2_two_pow
    refine ⟨sign, 2 ^ 52, exponent + 1, by decide, settle_eq sign wide (by omega) _ ?_ ?_,
      by decide, by omega, ?_⟩
    · rw [width]
      rfl
    · rw [width]
      rfl
    · rw [zpow_add_one₀ (by norm_num)]
      push_cast
      ring

/-- An exact value is rounded to a number that is larger by at most half a unit in the last
place, and that has as many binary places. -/
theorem exists_normal_round (sign : Sign) {mantissa : Nat} {exponent : Int}
    (wide : 52 ≤ mantissa.log2) (normal : -1022 ≤ mantissa.log2 + exponent) :
    ∃ value, Normal (roundWithAccuracy .binary64 sign mantissa exponent .exact) value ∧
      (2 : ℚ) ^ (mantissa.log2 + exponent) ≤ value ∧
      value ≤ mantissa * 2 ^ exponent + 2 ^ (mantissa.log2 + exponent - 53) := by
  rw [roundWithAccuracy_eq sign wide normal]
  refine ⟨_, normal_settle sign (two_pow_le_rounded wide) (rounded_le_two_pow wide) (by omega),
    ?_, ?_⟩
  · have low : (2 : ℚ) ^ 52 ≤ rounded mantissa (mantissa.log2 - 52) := by
      exact_mod_cast two_pow_le_rounded wide
    have places : (2 : ℚ) ^ ((mantissa.log2 : Int) + exponent) =
        2 ^ 52 * 2 ^ (exponent + (mantissa.log2 - 52 : Nat)) := by
      rw [← zpow_natCast, ← zpow_add₀ (by norm_num)]
      congr 1
      push_cast [wide]
      ring
    rw [places]
    gcongr
  obtain ⟨amount, width⟩ := Nat.exists_eq_add_of_le wide
  rw [width, Nat.add_sub_cancel_left]
  cases amount with
  | zero =>
      rw [rounded_zero]
      simp only [Nat.cast_zero, add_zero]
      have : (0 : ℚ) < 2 ^ ((52 : Nat) + exponent - 53) := by positivity
      linarith
  | succ amount =>
      have bound : (rounded mantissa (amount + 1) : ℚ) * 2 ^ (amount + 1) ≤
          mantissa + 2 ^ amount := by
        exact_mod_cast rounded_succ_le mantissa amount
      have positive : (0 : ℚ) < 2 ^ exponent := by positivity
      have scaled := mul_le_mul_of_nonneg_right bound positive.le
      have left : (2 : ℚ) ^ (exponent + (amount + 1 : Nat)) = 2 ^ (amount + 1) * 2 ^ exponent := by
        rw [zpow_add₀ (by norm_num), zpow_natCast, mul_comm]
      have right : (2 : ℚ) ^ ((52 + (amount + 1) : Nat) + exponent - 53) =
          2 ^ amount * 2 ^ exponent := by
        rw [← zpow_natCast, ← zpow_add₀ (by norm_num)]
        congr 1
        push_cast
        ring
      rw [left, right]
      linarith

/-! ## Packing -/

/-- The mantissa of a normal number is its stored part with a leading one. -/
theorem toNat_implicit (fraction : BitVec 52) :
    (1#1 ++ fraction).toNat = 2 ^ 52 + fraction.toNat := by
  rw [BitVec.toNat_append, ← Nat.shiftLeft_add_eq_or_of_lt fraction.isLt]
  rfl

/-- A normal number is packed into its sign, its biased exponent and its fraction. -/
theorem pack_finite (sign : Sign) {mantissa biased : Nat} (positive : 0 < mantissa)
    (width : mantissa.log2 = 52) (greatest : biased < 2047) :
    UnpackedFloat.pack .binary64 (.finite sign mantissa (biased - 1075) positive) =
      packComponents .binary64 sign (BitVec.ofNat 11 biased) (BitVec.ofNat 52 mantissa) := by
  have exponent : ((biased : Int) - 1075 + Format.exponentBias .binary64 +
      Format.mantissaBitsWithoutImplicit .binary64).toNat = biased := by
    simp only [Format.exponentBias]
    omega
  refine (if_neg ?_).trans ((if_pos (by rw [width]; rfl)).trans ?_)
  · rw [exponent]
    exact Nat.not_le.mpr (Nat.succ_lt_succ greatest)
  · rw [exponent]

/-- A word whose exponent is neither the least nor the greatest one is a normal number. -/
theorem unpack_eq_finite (packed : BitVec Format.binary64.numBits)
    (notLast : unpackExponent packed ≠ -1#11) (notZero : unpackExponent packed ≠ 0#11) :
    ∃ found positive, UnpackedFloat.unpack .binary64 packed =
      .finite found (1#1 ++ unpackMantissa packed).toNat ((unpackExponent packed).toNat - 1075)
        positive :=
  ⟨_, _, (if_neg notLast).trans (if_neg notZero)⟩

/-- Unpacking gives back the mantissa with its leading bit. -/
theorem unpack_packComponents (sign : Sign) (biased : Nat) (least : 0 < biased)
    (greatest : biased < 2047) (fraction : BitVec 52) :
    ∃ found positive, UnpackedFloat.unpack .binary64
        (packComponents .binary64 sign (BitVec.ofNat 11 biased) fraction) =
      .finite found (1#1 ++ fraction).toNat (biased - 1075) positive := by
  have value : (BitVec.ofNat 11 biased).toNat = biased := Nat.mod_eq_of_lt (by omega)
  have notLast : BitVec.ofNat 11 biased ≠ -1#11 := by
    intro same
    have numbers := congrArg BitVec.toNat same
    rw [value] at numbers
    have last : (-1#11).toNat = 2047 := by decide
    omega
  have notZero : BitVec.ofNat 11 biased ≠ 0#11 := by
    intro same
    have numbers := congrArg BitVec.toNat same
    rw [value] at numbers
    have zero : (0#11).toNat = 0 := by decide
    omega
  have unpacked := unpack_eq_finite
    (packComponents .binary64 sign (BitVec.ofNat 11 biased) fraction)
  rw [unpackExponent_packComponents, unpackMantissa_packComponents, value] at unpacked
  exact unpacked notLast notZero

/-- A normal number is packed without loss, unless its exponent is too large. -/
theorem Normal.unpack_pack {x : UnpackedFloat} {value : ℚ} (normal : Normal x value)
    (small : value < 2 ^ 1024) : Normal (Float.Model.pack x).unpack value := by
  obtain ⟨sign, mantissa, exponent, positive, rfl, width, least, rfl⟩ := normal
  have low : 2 ^ 52 ≤ mantissa := width ▸ Nat.log2_self_le positive.ne'
  have high : mantissa < 2 ^ 53 := by
    have below : mantissa < 2 ^ (mantissa.log2 + 1) := Nat.lt_log2_self
    rwa [width] at below
  have greatest : exponent ≤ 971 := by
    by_contra above
    have factor : (2 : ℚ) ^ (972 : Int) ≤ 2 ^ exponent :=
      zpow_le_zpow_right₀ (by norm_num) (by omega)
    have wide : (2 : ℚ) ^ 52 ≤ mantissa := by exact_mod_cast low
    have product : (2 : ℚ) ^ 52 * 2 ^ (972 : Int) ≤ mantissa * 2 ^ exponent :=
      mul_le_mul wide factor (by positivity) (by positivity)
    have whole : (2 : ℚ) ^ 52 * 2 ^ (972 : Int) = 2 ^ 1024 := by
      rw [show (972 : Int) = (972 : Nat) from rfl, zpow_natCast, ← pow_add]
    exact absurd small (not_lt.mpr (whole ▸ product))
  obtain ⟨biased, rfl⟩ : ∃ biased : Nat, exponent = biased - 1075 :=
    ⟨(exponent + 1075).toNat, by omega⟩
  obtain ⟨found, nonzero, unpacked⟩ := unpack_packComponents sign biased (by omega) (by omega)
    (BitVec.ofNat 52 mantissa)
  have whole : (1#1 ++ BitVec.ofNat 52 mantissa).toNat = mantissa := by
    rw [toNat_implicit, BitVec.toNat_ofNat]
    omega
  refine ⟨found, _, _, nonzero, ?_, by rw [whole, width], least, by rw [whole]⟩
  rw [← unpacked, ← pack_finite sign positive width (by omega)]
  rfl

/-! ## Conversions and products -/

/-- The number with a value, whatever its sign is. -/
def Holds (x : Float) (value : ℚ) : Prop :=
  Normal x.toModel.unpack value

/-- A float that holds a number is not infinite. -/
theorem Holds.isInf {x : Float} {value : ℚ} (holds : Holds x value) : x.isInf = false := by
  obtain ⟨sign, mantissa, exponent, positive, shape, _⟩ := holds
  change x.toModel.unpack.isInf = false
  rw [shape]
  rfl

/-- A number is at least the power of two of its leading bit. -/
theorem two_zpow_log2_le {mantissa : Nat} (nonzero : mantissa ≠ 0) (exponent : Int) :
    (2 : ℚ) ^ (mantissa.log2 + exponent) ≤ mantissa * 2 ^ exponent := by
  have low : (2 : ℚ) ^ mantissa.log2 ≤ mantissa := by
    exact_mod_cast Nat.log2_self_le nonzero
  rw [zpow_add₀ (by norm_num), zpow_natCast]
  gcongr

/-- A number is less than the next power of two. -/
theorem lt_two_zpow_log2 (mantissa : Nat) (exponent : Int) :
    (mantissa : ℚ) * 2 ^ exponent < 2 ^ (mantissa.log2 + 1 + exponent) := by
  have high : (mantissa : ℚ) < 2 ^ (mantissa.log2 + 1) := by
    exact_mod_cast Nat.lt_log2_self
  have power : (2 : ℚ) ^ ((mantissa.log2 : Int) + 1) = 2 ^ (mantissa.log2 + 1) := by
    rw [← zpow_natCast]
    rfl
  rw [zpow_add₀ (by norm_num), power]
  gcongr

/-- A value of at least one is rounded to a number that is not larger by more than a part in
`2 ^ 53`, and that is in range where the value is. -/
theorem exists_holds_round (sign : Sign) (mantissa : Nat) (exponent : Int)
    (wide : 52 ≤ mantissa.log2) (least : 1 ≤ (mantissa : ℚ) * 2 ^ exponent)
    (small : (mantissa : ℚ) * 2 ^ exponent < 2 ^ 1024 - 2 ^ 970) :
    ∃ value, Holds (.ofModel (Float.Model.pack
        (roundWithAccuracy .binary64 sign mantissa exponent .exact))) value ∧
      1 ≤ value ∧ value ≤ mantissa * 2 ^ exponent * (1 + 1 / 2 ^ 53) := by
  have nonzero : mantissa ≠ 0 := by
    rintro rfl
    simp at wide
  have low := two_zpow_log2_le nonzero exponent
  have above : 0 < (mantissa.log2 : Int) + 1 + exponent := by
    have power := least.trans_lt (lt_two_zpow_log2 mantissa exponent)
    exact (one_lt_zpow_iff_right₀ (by norm_num)).mp power
  have below : (mantissa.log2 : Int) + exponent < 1024 := by
    have positive : (0 : ℚ) < 2 ^ 970 := by positivity
    have power : (2 : ℚ) ^ ((mantissa.log2 : Int) + exponent) < 2 ^ (1024 : Int) := by
      calc (2 : ℚ) ^ ((mantissa.log2 : Int) + exponent) ≤ mantissa * 2 ^ exponent := low
        _ < 2 ^ 1024 - 2 ^ 970 := small
        _ < 2 ^ 1024 := sub_lt_self _ positive
        _ = 2 ^ (1024 : Int) := (zpow_natCast 2 1024).symm
    exact (zpow_lt_zpow_iff_right₀ (by norm_num)).mp power
  have range : -1022 ≤ (mantissa.log2 : Int) + exponent := by omega
  obtain ⟨value, normal, places, bound⟩ := exists_normal_round sign wide range
  have unit : (2 : ℚ) ^ ((mantissa.log2 : Int) + exponent - 53) ≤ 2 ^ 970 := by
    rw [← zpow_natCast]
    exact zpow_le_zpow_right₀ (by norm_num) (by omega)
  have inside : value < 2 ^ 1024 := by
    calc value ≤ mantissa * 2 ^ exponent + 2 ^ ((mantissa.log2 : Int) + exponent - 53) := bound
      _ ≤ mantissa * 2 ^ exponent + 2 ^ 970 := by gcongr
      _ < 2 ^ 1024 - 2 ^ 970 + 2 ^ 970 := by gcongr
      _ = 2 ^ 1024 := sub_add_cancel _ _
  have one : 1 ≤ value := (one_le_zpow₀ (by norm_num) (by omega)).trans places
  refine ⟨value, normal.unpack_pack inside, one, ?_⟩
  calc value ≤ mantissa * 2 ^ exponent + 2 ^ ((mantissa.log2 : Int) + exponent - 53) := bound
    _ = mantissa * 2 ^ exponent + 2 ^ ((mantissa.log2 : Int) + exponent) / 2 ^ 53 := by
      rw [zpow_sub₀ (by norm_num)]
      norm_num
    _ ≤ mantissa * 2 ^ exponent + mantissa * 2 ^ exponent / 2 ^ 53 := by gcongr
    _ = mantissa * 2 ^ exponent * (1 + 1 / 2 ^ 53) := by ring

/-- Multiplying by a power of two adds its exponent to the binary logarithm. -/
theorem log2_mul_two_pow {n : Nat} (nonzero : n ≠ 0) (amount : Nat) :
    (n * 2 ^ amount).log2 = n.log2 + amount := by
  apply log2_eq_of_bounds
  · rw [Nat.pow_add]
    exact Nat.mul_le_mul_right _ (Nat.log2_self_le nonzero)
  · rw [Nat.add_right_comm, Nat.pow_add]
    exact Nat.mul_lt_mul_of_pos_right Nat.lt_log2_self (Nat.two_pow_pos amount)

/-- The float of a natural number is its mantissa, widened and rounded. -/
theorem toFloat_eq {n : Nat} (positive : 0 < n) (fits : n < UInt64.size) :
    n.toUInt64.toFloat = .ofModel (Float.Model.pack (roundWithAccuracy .binary64 .positive
      (n * 2 ^ (52 - n.log2)) (-(52 - n.log2 : Nat)) .exact)) := by
  have size : n.toUInt64.toNat = n := UInt64.toNat_ofNat_of_lt fits
  have order : compare (n : Int) 0 = .gt := Int.compare_eq_gt.mpr (by omega)
  have target : (0 - Format.binary64.targetExponent (totalExponent n 0)).toNat = 52 - n.log2 := by
    simp only [Format.targetExponent, totalExponent, mantissaBits_binary64, Format.minExponent]
    omega
  change Float.ofModel (Float.Model.pack
    (UnpackedFloat.normalize .binary64 (n.toUInt64.toNat : Int) 0 .positive)) = _
  rw [size, UnpackedFloat.normalize, order]
  dsimp only
  rw [Int.toNat_natCast, UnpackedFloat.round, decreaseExponent, target, Nat.shiftLeft_eq, Int.zero_sub]

/-- A natural number that fits in 64 bits is converted with a relative error of at most
`1 / 2 ^ 53`. -/
theorem exists_holds_toFloat {n : Nat} (positive : 0 < n) (fits : n < UInt64.size) :
    ∃ value, Holds n.toUInt64.toFloat value ∧ 1 ≤ value ∧ value ≤ n * (1 + 1 / 2 ^ 53) := by
  have exact : ((n * 2 ^ (52 - n.log2) : Nat) : ℚ) * 2 ^ (-(52 - n.log2 : Nat) : Int) = n := by
    rw [zpow_neg, zpow_natCast]
    push_cast
    exact mul_inv_cancel_right₀ (by positivity) _
  have wide : 52 ≤ (n * 2 ^ (52 - n.log2)).log2 := by
    rw [log2_mul_two_pow (by omega)]
    omega
  have small : (n : ℚ) < 2 ^ 1024 - 2 ^ 970 := by
    have room : n + 2 ^ 970 < 2 ^ 1024 := by
      calc n + 2 ^ 970 < UInt64.size + 2 ^ 970 := Nat.add_lt_add_right fits _
        _ < 2 ^ 1024 := by decide +kernel
    exact lt_sub_iff_add_lt.mpr (by exact_mod_cast room)
  have result := exists_holds_round .positive _ (-(52 - n.log2 : Nat)) wide
  rw [exact] at result
  rw [toFloat_eq positive fits]
  exact result (by exact_mod_cast positive) small

/-- A large power of ten becomes a float by one rounding. -/
theorem ofScientific_eq {exponent : Nat} (large : 22 < exponent) (fits : exponent ≤ 308) :
    Float.ofScientific 1 false exponent = .ofModel (Float.Model.pack (roundWithAccuracy .binary64
      .positive (2 ^ 53 * 10 ^ exponent) (-53) .exact)) := by
  have table : ¬(1 < 2 ^ 53 ∧ exponent ≤ 22) := by omega
  rw [Float.ofScientific, dif_neg table]
  change Float.ofModel (Float.Model.pack
    (UnpackedFloat.ofScientific .binary64 1 (exponent : Int))) = _
  rw [UnpackedFloat.ofScientific, dif_neg one_ne_zero, if_neg (by norm_num; omega),
    if_neg (by norm_num; omega), if_pos (by omega)]
  rfl

/-- Whether the power of ten is the number itself. -/
def isExactPower (exponent : Nat) : Bool :=
  match (Float.ofScientific 1 false exponent).toModel.unpack with
  | .finite _ mantissa power _ =>
    mantissa.log2 = 52 && -1074 ≤ power &&
      mantissa * 2 ^ power.toNat = 10 ^ exponent * 2 ^ (-power).toNat
  | _ => false

/-- The powers of ten up to the twenty-second are floats without rounding. -/
theorem isExactPower_of_le {exponent : Nat} (small : exponent ≤ 22) :
    isExactPower exponent = true := by
  have all : ∀ exponent < 23, isExactPower exponent = true := by decide +kernel
  exact all exponent (Nat.lt_succ_of_le small)

/-- A negative power can be moved to the other side. -/
theorem zpow_mul_pow_toNat_neg {base : ℚ} (nonzero : base ≠ 0) (exponent : Int) :
    base ^ exponent * base ^ (-exponent).toNat = base ^ exponent.toNat := by
  rw [← zpow_natCast, ← zpow_natCast, ← zpow_add₀ nonzero]
  congr 1
  omega

/-- A power of ten that is exact is held as it is. -/
theorem holds_of_isExactPower {exponent : Nat} (exact : isExactPower exponent = true) :
    Holds (Float.ofScientific 1 false exponent) (10 ^ exponent) := by
  unfold isExactPower at exact
  split at exact
  · rename_i sign mantissa power positive shape
    simp only [Bool.and_eq_true, decide_eq_true_eq] at exact
    obtain ⟨⟨width, least⟩, same⟩ := exact
    refine ⟨sign, mantissa, power, positive, shape, width, least, ?_⟩
    have same : (mantissa : ℚ) * 2 ^ power.toNat = 10 ^ exponent * 2 ^ (-power).toNat := by
      exact_mod_cast same
    rw [← zpow_mul_pow_toNat_neg two_ne_zero, ← mul_assoc] at same
    exact (mul_right_cancel₀ (by positivity) same).symm
  · exact absurd exact Bool.false_ne_true

/-- A power of ten has a relative error of at most `1 / 2 ^ 53`. -/
theorem exists_holds_ofScientific {exponent : Nat} (fits : exponent ≤ 308) :
    ∃ value, Holds (Float.ofScientific 1 false exponent) value ∧ 1 ≤ value ∧
      value ≤ 10 ^ exponent * (1 + 1 / 2 ^ 53) := by
  have least : (1 : ℚ) ≤ 10 ^ exponent := one_le_pow₀ (by norm_num)
  by_cases small : exponent ≤ 22
  · refine ⟨_, holds_of_isExactPower (isExactPower_of_le small), least, ?_⟩
    exact le_mul_of_one_le_right (by positivity) (by norm_num)
  · have exact : ((2 ^ 53 * 10 ^ exponent : Nat) : ℚ) * 2 ^ (-53 : Int) = 10 ^ exponent := by
      rw [zpow_neg, Nat.cast_mul, mul_right_comm]
      norm_num
    have wide : 52 ≤ (2 ^ 53 * 10 ^ exponent).log2 := by
      rw [Nat.mul_comm, log2_mul_two_pow (by positivity)]
      omega
    have inRange : (10 : ℚ) ^ exponent < 2 ^ 1024 - 2 ^ 970 := by
      have room : 10 ^ exponent + 2 ^ 970 < 2 ^ 1024 := by
        calc 10 ^ exponent + 2 ^ 970 ≤ 10 ^ 308 + 2 ^ 970 :=
              Nat.add_le_add_right (Nat.pow_le_pow_right (by decide) fits) _
          _ < 2 ^ 1024 := by decide +kernel
      exact lt_sub_iff_add_lt.mpr (by exact_mod_cast room)
    have result := exists_holds_round .positive _ (-53) wide
    rw [exact] at result
    rw [ofScientific_eq (Nat.lt_of_not_le small) fits]
    exact result least inRange

/-- Where the exact product is in range, the product is not infinite. -/
theorem Holds.isInf_mul {x y : Float} {first second : ℚ} (left : Holds x first)
    (right : Holds y second) (leftLeast : 1 ≤ first) (rightLeast : 1 ≤ second)
    (small : first * second < 2 ^ 1024 - 2 ^ 970) : (x * y).isInf = false := by
  obtain ⟨leftSign, leftMantissa, leftExponent, leftPositive, leftShape, leftWidth, _, rfl⟩ := left
  obtain ⟨rightSign, rightMantissa, rightExponent, rightPositive, rightShape, rightWidth, _, rfl⟩ :=
    right
  have product : x * y = .ofModel (Float.Model.pack (roundWithAccuracy .binary64
      (leftSign * rightSign) (leftMantissa * rightMantissa) (leftExponent + rightExponent)
        .exact)) := by
    change Float.ofModel (Float.Model.pack
      (UnpackedFloat.mul .binary64 x.toModel.unpack y.toModel.unpack)) = _
    rw [leftShape, rightShape]
    rfl
  have wide : 52 ≤ (leftMantissa * rightMantissa).log2 := by
    refine (Nat.le_log2 (Nat.mul_ne_zero leftPositive.ne' rightPositive.ne')).mpr ?_
    calc 2 ^ 52 ≤ leftMantissa := leftWidth ▸ Nat.log2_self_le leftPositive.ne'
      _ ≤ leftMantissa * rightMantissa := Nat.le_mul_of_pos_right _ rightPositive
  have exact : ((leftMantissa * rightMantissa : Nat) : ℚ) * 2 ^ (leftExponent + rightExponent) =
      leftMantissa * 2 ^ leftExponent * (rightMantissa * 2 ^ rightExponent) := by
    rw [zpow_add₀ (by norm_num)]
    push_cast
    ring
  have result := exists_holds_round (leftSign * rightSign) _ (leftExponent + rightExponent) wide
  rw [exact] at result
  obtain ⟨value, holds, _⟩ := result (one_le_mul_of_one_le_of_one_le leftLeast rightLeast) small
  rw [product]
  exact holds.isInf

/-- A bound that leaves room for two roundings. -/
def limit : ℚ :=
  2 ^ 1024 - 5 * 2 ^ 970

/-- The largest float is below the three hundred and ninth power of ten. -/
theorem limit_lt : limit < 10 ^ 309 := by
  have room : 2 ^ 1024 < 10 ^ 309 := by decide +kernel
  calc limit < 2 ^ 1024 := sub_lt_self _ (by positivity)
    _ < 10 ^ 309 := by exact_mod_cast room

/-- A number within the range of floats has an exponent of at most three hundred and eight. -/
theorem exponent_le {significand exponent : Nat} (positive : 0 < significand)
    (small : (significand : ℚ) * 10 ^ exponent ≤ limit) : exponent ≤ 308 := by
  have one : (1 : ℚ) ≤ significand := by exact_mod_cast positive
  have tens : (10 : ℚ) ^ exponent < 10 ^ 309 := by
    calc (10 : ℚ) ^ exponent ≤ significand * 10 ^ exponent :=
          le_mul_of_one_le_left (by positivity) one
      _ ≤ limit := small
      _ < 10 ^ 309 := limit_lt
  have below := (pow_lt_pow_iff_right₀ (show (1 : ℚ) < 10 by norm_num)).mp tens
  omega

/-- A significand of 64 bits that is scaled by a power of ten stays in range. -/
theorem isInf_scaled {significand exponent : Nat} (fits : significand < UInt64.size)
    (positive : 0 < significand) (small : (significand : ℚ) * 10 ^ exponent ≤ limit) :
    (significand.toUInt64.toFloat * Float.ofScientific 1 false exponent).isInf = false := by
  have power := exponent_le positive small
  obtain ⟨first, left, leftLeast, leftBound⟩ := exists_holds_toFloat positive fits
  obtain ⟨second, right, rightLeast, rightBound⟩ := exists_holds_ofScientific power
  refine left.isInf_mul right leftLeast rightLeast ?_
  have product : first * second ≤
      significand * 10 ^ exponent * ((1 + 1 / 2 ^ 53) * (1 + 1 / 2 ^ 53)) := by
    calc first * second
        ≤ significand * (1 + 1 / 2 ^ 53) * (10 ^ exponent * (1 + 1 / 2 ^ 53)) := by gcongr
      _ = significand * 10 ^ exponent * ((1 + 1 / 2 ^ 53) * (1 + 1 / 2 ^ 53)) := by ring
  have split : (2 : ℚ) ^ 1024 = 2 ^ 54 * 2 ^ 970 := by rw [← pow_add]
  have positive : (0 : ℚ) < 2 ^ 970 := by positivity
  rw [limit, split] at small
  rw [split]
  generalize (2 : ℚ) ^ 970 = unit at small positive ⊢
  generalize (significand : ℚ) * 10 ^ exponent = value at small product
  norm_num at product small ⊢
  linarith only [product, small, positive]

end FloatRange

end ByteLisp
