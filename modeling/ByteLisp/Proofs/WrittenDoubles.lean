import ByteLisp.Json.Basic
import ByteLisp.Proofs.FloatRange
import ByteLisp.Proofs.JsonTokens
import Mathlib.Tactic.LinearCombination

/-!
# Written numbers can be read

The shortest decimal of a number lies within the values that round to the number, so that it is
not above the middle between the number and its neighbour. Reading it back takes a significand
of 64 bits and one power of ten, both rounded; this never leaves the range of the finite
numbers, although the result may differ from the number in its last place.
-/

namespace ByteLisp

/-! ## Shortest decimals -/

/-- The number that a decimal stands for. -/
def Decimal.value (decimal : Decimal) : ℚ :=
  decimal.digits * 10 ^ decimal.exponent

/-- The middle between the number and its neighbour above. -/
def Binary.upperEnd (x : Binary) : ℚ :=
  (4 * x.mantissa + 2) * 2 ^ (x.exponent - 2)

namespace Measure

/-- Both sides of the ratio are positive. -/
theorem ratio_pos (x : Binary) (grid : Int) : 0 < (x.ratio grid).1 ∧ 0 < (x.ratio grid).2 :=
  ⟨Nat.mul_pos (Nat.pow_pos (by decide)) (Nat.pow_pos (by decide)),
    Nat.mul_pos (Nat.pow_pos (by decide)) (Nat.pow_pos (by decide))⟩

/-- The ratio is that of a quarter of the last bit to the unit of the grid. -/
theorem ratio_eq (x : Binary) (grid : Int) :
    ((x.ratio grid).1 : ℚ) * 10 ^ grid = (x.ratio grid).2 * 2 ^ (x.exponent - 2) := by
  have twos := FloatRange.zpow_mul_pow_toNat_neg two_ne_zero (x.exponent - 2)
  have tens := FloatRange.zpow_mul_pow_toNat_neg (show (10 : ℚ) ≠ 0 by norm_num) grid
  change ((2 ^ (x.exponent - 2).toNat * 10 ^ (-grid).toNat : Nat) : ℚ) * 10 ^ grid =
    ((2 ^ (-(x.exponent - 2)).toNat * 10 ^ grid.toNat : Nat) : ℚ) * 2 ^ (x.exponent - 2)
  push_cast
  rw [← twos, ← tens]
  ring

/-- Units that are admitted are positive and at most half a bit above the number. -/
theorem bounds_of_admits {x : Binary} {grid : Int} {units : Nat} (positive : 0 < x.mantissa)
    (fits : (ofBinary x grid).admits units = true) :
    0 < units ∧ units * (x.ratio grid).2 ≤ (4 * x.mantissa + 2) * (x.ratio grid).1 := by
  obtain ⟨num_pos, den_pos⟩ := ratio_pos x grid
  simp only [admits, Bool.and_eq_true, decide_eq_true_eq] at fits
  rcases ratio : x.ratio grid with ⟨num, den⟩
  rw [ratio] at num_pos den_pos
  simp only [ofBinary, ratio] at fits ⊢
  have low_pos : 0 < (4 * x.mantissa - if x.narrowBelow then 1 else 2) * num := by
    refine Nat.mul_pos ?_ num_pos
    split <;> omega
  generalize (4 * x.mantissa - if x.narrowBelow then 1 else 2) * num = low at fits low_pos
  generalize (4 * x.mantissa + 2) * num = high at fits ⊢
  split at fits
  · obtain ⟨least, greatest⟩ := fits
    have one : 1 ≤ (low + den - 1) / den := (Nat.one_le_div_iff den_pos).mpr (by omega)
    exact ⟨one.trans least, (Nat.le_div_iff_mul_le den_pos).mp greatest⟩
  · obtain ⟨least, greatest⟩ := fits
    have one : 1 ≤ low / den + 1 := Nat.le_add_left 1 _
    have below := (Nat.le_div_iff_mul_le den_pos).mp greatest
    exact ⟨one.trans least, below.trans (Nat.sub_le high 1)⟩

/-- The units that round to a number are not beyond the middle between it and its neighbour. -/
theorem le_upperEnd_of_admits {x : Binary} {grid : Int} {units : Nat} (positive : 0 < x.mantissa)
    (fits : (ofBinary x grid).admits units = true) : (units : ℚ) * 10 ^ grid ≤ x.upperEnd := by
  obtain ⟨_, within⟩ := bounds_of_admits positive fits
  have den_pos : (0 : ℚ) < (x.ratio grid).2 := by exact_mod_cast (ratio_pos x grid).2
  have within : (units : ℚ) * (x.ratio grid).2 ≤ (4 * x.mantissa + 2) * (x.ratio grid).1 := by
    exact_mod_cast within
  have scaled := mul_le_mul_of_nonneg_right within (show (0 : ℚ) ≤ 10 ^ grid by positivity)
  refine le_of_mul_le_mul_right ?_ den_pos
  calc (units : ℚ) * 10 ^ grid * (x.ratio grid).2
      = units * (x.ratio grid).2 * 10 ^ grid := by ring
    _ ≤ (4 * x.mantissa + 2) * (x.ratio grid).1 * 10 ^ grid := scaled
    _ = (4 * x.mantissa + 2) * ((x.ratio grid).1 * 10 ^ grid) := by ring
    _ = x.upperEnd * (x.ratio grid).2 := by
      rw [ratio_eq, Binary.upperEnd]
      ring

/-- What is found on a grid rounds to the measured number. -/
theorem admits_of_nearest? {measure : Measure} {tie : TieRule} {step count : Nat}
    (found : measure.nearest? tie step = some count) : measure.admits (count * step) = true := by
  simp only [nearest?] at found
  split at found
  · rename_i both
    obtain ⟨below, above⟩ := Bool.and_eq_true_iff.mp both
    split at found
    · cases found
      exact below
    · split at found
      · cases found
        exact above
      · split at found
        · cases found
          exact above
        · split at found
          · cases found
            exact below
          · cases found
            exact above
  · split at found
    · rename_i below
      cases found
      exact below
    · split at found
      · rename_i above
        cases found
        exact above
      · cases found

end Measure

namespace Decimal

/-- Stripping zeros keeps the value. -/
theorem strip_bounds (limit : Nat) {decimal : Decimal} (positive : 0 < decimal.digits) :
    0 < (strip limit decimal).digits ∧ (strip limit decimal).value = decimal.value := by
  induction limit generalizing decimal with
  | zero => exact ⟨positive, rfl⟩
  | succ limit ih =>
      rw [strip]
      split
      · rename_i round
        have whole : decimal.digits = 10 * (decimal.digits / 10) := by omega
        obtain ⟨kept, same⟩ := @ih ⟨decimal.digits / 10, decimal.exponent + 1⟩ (by dsimp; omega)
        refine ⟨kept, same.trans ?_⟩
        have cast : (decimal.digits : ℚ) = 10 * (decimal.digits / 10 : Nat) := by
          exact_mod_cast whole
        rw [value, value, zpow_add_one₀ (by norm_num), cast]
        ring
      · exact ⟨positive, rfl⟩

/-- Each step is a power of ten. -/
theorem step_eq_pow {coarser step : Nat} (member : (coarser, step) ∈ steps) :
    step = 10 ^ coarser := by
  obtain ⟨count, _, pair⟩ := List.mem_map.mp member
  cases pair
  rfl

/-- The exact decimal has the value of the number. -/
theorem value_exactDecimal (x : Binary) : x.exactDecimal.value = x.mantissa * 2 ^ x.exponent := by
  unfold Binary.exactDecimal
  split
  · rename_i whole
    obtain ⟨power, exponent⟩ := Int.eq_ofNat_of_zero_le whole
    simp [value, exponent]
  · rename_i broken
    have fives := FloatRange.zpow_mul_pow_toNat_neg (show (5 : ℚ) ≠ 0 by norm_num) x.exponent
    have none : x.exponent.toNat = 0 := by omega
    rw [none, pow_zero] at fives
    have tens : (10 : ℚ) ^ x.exponent = 2 ^ x.exponent * 5 ^ x.exponent := by
      rw [← mul_zpow]
      norm_num
    change ((x.mantissa * 5 ^ (-x.exponent).toNat : Nat) : ℚ) * 10 ^ x.exponent = _
    push_cast
    rw [tens]
    linear_combination x.mantissa * 2 ^ x.exponent * fives

/-- The exact decimal is positive and not above the upper end. -/
theorem exactDecimal_bounds {x : Binary} (positive : 0 < x.mantissa) :
    0 < x.exactDecimal.digits ∧ x.exactDecimal.value ≤ x.upperEnd := by
  constructor
  · unfold Binary.exactDecimal
    split
    · exact Nat.mul_pos positive (Nat.pow_pos (by decide))
    · exact Nat.mul_pos positive (Nat.pow_pos (by decide))
  · have half : x.upperEnd = (x.mantissa + 1 / 2) * 2 ^ x.exponent := by
      rw [Binary.upperEnd, zpow_sub₀ (by norm_num)]
      norm_num
      ring
    rw [value_exactDecimal, half]
    gcongr
    norm_num

/-- The shortest decimal of a number is a positive one that is not beyond the middle between the
number and its neighbour. -/
theorem shortest_bounds (tie : TieRule) {x : Binary} (positive : 0 < x.mantissa) :
    0 < (shortest tie x).digits ∧ (shortest tie x).value ≤ x.upperEnd := by
  unfold shortest
  dsimp only
  split
  · rename_i decimal found
    obtain ⟨⟨coarser, step⟩, member, hit⟩ := List.exists_of_findSome?_eq_some found
    obtain ⟨units, nearest, rfl⟩ := Option.map_eq_some_iff.mp hit
    have admits := Measure.admits_of_nearest? nearest
    rw [step_eq_pow member] at admits
    have some_unit : 0 < units :=
      Nat.pos_of_mul_pos_right (Measure.bounds_of_admits positive admits).1
    have within := Measure.le_upperEnd_of_admits positive admits
    obtain ⟨kept, same⟩ := strip_bounds 20
      (show 0 < (⟨units, x.tenPower - 17 + coarser⟩ : Decimal).digits from some_unit)
    refine ⟨kept, same.trans_le (le_of_eq_of_le ?_ within)⟩
    rw [value, zpow_add₀ (by norm_num), zpow_natCast]
    push_cast
    ring
  · exact exactDecimal_bounds positive

end Decimal

/-! ## Numerals of numbers -/

namespace Digits

/-- Digits in a row shift the number before them. -/
theorem foldl_eq (digits : Digits) (start : Nat) :
    digits.foldl (fun number digit => 10 * number + digit.val) start =
      start * 10 ^ digits.length + toNat digits := by
  induction digits generalizing start with
  | nil => simp [toNat]
  | cons digit digits ih =>
      rw [toNat, List.foldl_cons, List.foldl_cons, ih, ih (10 * 0 + digit.val), List.length_cons]
      ring

/-- The first digit counts for the place that it has. -/
theorem toNat_cons (digit : Fin 10) (digits : Digits) :
    toNat (digit :: digits) = digit.val * 10 ^ digits.length + toNat digits := by
  rw [toNat, List.foldl_cons, foldl_eq]
  simp

/-- A number whose first digit is not zero is at least the power of ten of that digit. -/
theorem pow_le_toNat_mul {first : Fin 10} (positive : 0 < first.val) (others : Digits)
    (places : Nat) :
    (10 : ℚ) ^ places ≤ toNat (first :: others) * 10 ^ ((places : Int) - others.length) := by
  have digits : 10 ^ others.length ≤ toNat (first :: others) := by
    rw [toNat_cons]
    exact (Nat.le_mul_of_pos_left _ positive).trans (Nat.le_add_right _ _)
  have cast : (10 : ℚ) ^ others.length ≤ toNat (first :: others) := by
    exact_mod_cast digits
  calc (10 : ℚ) ^ places = 10 ^ others.length * 10 ^ ((places : Int) - others.length) := by
        rw [← zpow_natCast, ← zpow_natCast, ← zpow_add₀ (by norm_num)]
        congr 1
        ring
    _ ≤ _ := by gcongr

/-- Digits that can be read up to a limit write the number that is read. -/
theorem toNat_of_upTo? {limit n : Nat} {digits : Digits} (read : upTo? limit digits = some n) :
    toNat digits = n := by
  have general : ∀ start, digits.foldlM (grow? limit) start = some n →
      digits.foldl (fun number digit => 10 * number + digit.val) start = n := by
    clear read
    induction digits with
    | nil =>
        intro start read
        exact Option.some.inj read
    | cons digit digits ih =>
        intro start read
        obtain ⟨grown, taken, rest⟩ := Option.bind_eq_some_iff.mp read
        simp only [grow?] at taken
        split at taken
        · cases taken
          exact ih _ rest
        · cases taken
  exact general 0 read

/-- The first digit of a positive number is not zero. -/
theorem exists_ofNat_cons {n : Nat} (positive : 0 < n) :
    ∃ first others, ofNat n = first :: others ∧ first ≠ 0 := by
  fun_induction ofNat n with
  | case1 n small =>
      refine ⟨_, [], rfl, fun zero => ?_⟩
      have value := congrArg Fin.val zero
      simp only [Fin.ofNat, Fin.val_zero] at value
      omega
  | case2 n large ih =>
      obtain ⟨first, others, front, nonzero⟩ := ih (by omega)
      exact ⟨first, others ++ [Fin.ofNat 10 n], by rw [front, List.cons_append], nonzero⟩

/-- Zero is written with one digit. -/
theorem ofNat_zero : ofNat 0 = [0] := by
  rw [ofNat]
  rfl

end Digits

namespace Numeral

/-- A numeral that does not begin with zero is canonical. -/
theorem canonical_of_cons {numeral : Numeral} {first : Fin 10} {others : Digits}
    (whole : numeral.whole = first :: others) (nonzero : first ≠ 0)
    (exponent : ∀ written ∈ numeral.exponent, written.2 ≠ []) : numeral.Canonical where
  whole_ne_nil := by simp [whole]
  zero_alone next rest same := by
    rw [whole] at same
    exact nonzero (List.cons.inj same).1
  exponent_ne_nil := exponent

/-- So is one with a single digit before the point. -/
theorem canonical_of_single {numeral : Numeral} {digit : Fin 10}
    (whole : numeral.whole = [digit]) (exponent : ∀ written ∈ numeral.exponent, written.2 ≠ []) :
    numeral.Canonical where
  whole_ne_nil := by simp [whole]
  zero_alone next rest same := by simp [whole] at same
  exponent_ne_nil := exponent

/-- Integers are written canonically. -/
theorem canonical_ofInt (n : Int) : (ofInt n).Canonical := by
  by_cases zero : n.natAbs = 0
  · have whole : (ofInt n).whole = [0] := by rw [ofInt, zero, Digits.ofNat_zero]
    exact canonical_of_single whole fun _ absent => absurd absent (Option.not_mem_none _)
  · obtain ⟨first, others, digits, nonzero⟩ :=
      Digits.exists_ofNat_cons (Nat.pos_of_ne_zero zero)
    exact canonical_of_cons digits nonzero fun _ absent => absurd absent (Option.not_mem_none _)

end Numeral

namespace Binary

/-- The parts of a number in terms of its magnitude. -/
theorem ofDouble_parts (x : Double) :
    (x.magnitude.toNat < 2 ^ 52 ∧ (ofDouble x).mantissa = x.magnitude.toNat ∧
        (ofDouble x).exponent = -1074) ∨
      (2 ^ 52 ≤ x.magnitude.toNat ∧
        (ofDouble x).mantissa = x.magnitude.toNat % 2 ^ 52 + 2 ^ 52 ∧
        (ofDouble x).exponent = (x.magnitude.toNat / 2 ^ 52 : Nat) - 1075) := by
  have quotient : (x.magnitude / 0x10000000000000).toNat = x.magnitude.toNat / 2 ^ 52 :=
    UInt64.toNat_div _ _
  have remainder : (x.magnitude % 0x10000000000000).toNat = x.magnitude.toNat % 2 ^ 52 :=
    UInt64.toNat_mod _ _
  unfold ofDouble
  dsimp only
  by_cases small : x.magnitude / 0x10000000000000 = 0
  · rw [if_pos small]
    rw [small] at quotient
    have below : x.magnitude.toNat < 2 ^ 52 := by
      have zero : (0 : UInt64).toNat = 0 := rfl
      omega
    refine .inl ⟨below, ?_, rfl⟩
    rw [remainder]
    exact Nat.mod_eq_of_lt below
  · rw [if_neg small]
    have large : 2 ^ 52 ≤ x.magnitude.toNat := by
      by_contra below
      refine small (UInt64.toNat_inj.mp ?_)
      rw [quotient]
      exact Nat.div_eq_of_lt (Nat.lt_of_not_le below)
    refine .inr ⟨large, ?_, by rw [quotient]⟩
    have bit : (0x10000000000000 : UInt64).toNat = 2 ^ 52 := rfl
    rw [UInt64.toNat_add, remainder, bit]
    exact Nat.mod_eq_of_lt (by omega)

/-- A number other than zero has a positive mantissa. -/
theorem mantissa_pos {x : Double} (nonzero : x.magnitude ≠ 0) : 0 < (ofDouble x).mantissa := by
  have positive : x.magnitude.toNat ≠ 0 := fun zero => nonzero (UInt64.toNat_inj.mp zero)
  obtain ⟨_, mantissa, _⟩ | ⟨_, mantissa, _⟩ := ofDouble_parts x <;> omega

end Binary

namespace Numeral

/-- The numeral is written without an exponent, with few digits before the point and some
after it. -/
structure Positional (numeral : Numeral) : Prop where
  whole_length : numeral.whole.length ≤ 16
  fraction_ne_nil : numeral.fraction ≠ []
  exponent_eq : numeral.exponent = none

/-- The numeral has the digits of a decimal, one of them before the point, and an exponent. -/
structure Scientific (numeral : Numeral) (first : Fin 10) (others : Digits) (power : Int) :
    Prop where
  whole_eq : numeral.whole = [first]
  fraction_eq : numeral.fraction = others
  exponent_eq : numeral.exponent = some (decide (power < 0), Digits.ofNat power.natAbs)

/-- A number is written in one of two forms, and in both as JSON has it. -/
theorem ofDouble_forms {x : Double} {first : Fin 10} {others : Digits}
    (nonzero : x.magnitude ≠ 0)
    (digits : Digits.ofNat (Decimal.shortest .even (Binary.ofDouble x)).digits = first :: others)
    (leading : first ≠ 0) :
    (ofDouble x).Canonical ∧ ((ofDouble x).Positional ∨ (ofDouble x).Scientific first others
      (others.length + (Decimal.shortest .even (Binary.ofDouble x)).exponent)) := by
  have point : ((first :: others).length : Int) +
      (Decimal.shortest .even (Binary.ofDouble x)).exponent - 1 =
      others.length + (Decimal.shortest .even (Binary.ofDouble x)).exponent := by
    rw [List.length_cons]
    push_cast
    ring
  unfold ofDouble
  rw [if_neg nonzero]
  dsimp only
  rw [digits]
  generalize (Decimal.shortest .even (Binary.ofDouble x)).exponent = exponent at point ⊢
  split
  · rename_i range
    split
    · rename_i positive
      obtain ⟨count, count_eq⟩ : ∃ count, ((first :: others).length + exponent).toNat = count + 1 :=
        Nat.exists_eq_succ_of_ne_zero (by omega)
      rw [count_eq]
      refine ⟨canonical_of_cons (List.cons_append ..) leading nofun, .inl ⟨?_, ?_, rfl⟩⟩
      · simp only [List.length_append, List.length_take, List.length_replicate]
        omega
      · dsimp only
        split
        · exact List.cons_ne_nil 0 []
        · assumption
    · exact ⟨canonical_of_single rfl nofun,
        .inl ⟨by simp, by simp, rfl⟩⟩
  · have written : ∀ written ∈ some (decide ((first :: others).length + exponent - 1 < 0),
        Digits.ofNat ((first :: others).length + exponent - 1).natAbs), written.2 ≠ [] := by
      rintro _ ⟨⟩
      exact Digits.ofNat_ne_nil _
    refine ⟨canonical_of_single rfl written, .inr ⟨rfl, rfl, ?_⟩⟩
    rw [← point]

/-- Zeros are written without an exponent. -/
theorem ofDouble_zero {x : Double} (zero : x.magnitude = 0) :
    (ofDouble x).Canonical ∧ (ofDouble x).Positional := by
  rw [ofDouble, if_pos zero]
  exact ⟨canonical_of_single rfl nofun, by simp, by simp, rfl⟩

/-- Floats are written canonically. -/
theorem canonical_ofDouble (x : Double) : (ofDouble x).Canonical := by
  by_cases zero : x.magnitude = 0
  · exact (ofDouble_zero zero).1
  · have positive := (Decimal.shortest_bounds .even (Binary.mantissa_pos zero)).1
    obtain ⟨first, others, digits, leading⟩ := Digits.exists_ofNat_cons positive
    exact (ofDouble_forms zero digits leading).1

end Numeral

/-! ## Reading -/

namespace Numeral

namespace Scaled

/-- Few digits before the point all fit. -/
theorem foldl_addWhole (digits : Digits) (start : Nat)
    (room : (start + 1) * 10 ^ digits.length ≤ UInt64.size) :
    ∃ significand < (start + 1) * 10 ^ digits.length,
      digits.foldl addWhole ⟨start, 0, true⟩ = ⟨significand, 0, true⟩ := by
  induction digits generalizing start with
  | nil => exact ⟨start, by simp, rfl⟩
  | cons digit digits ih =>
      have power : (start + 1) * 10 ^ (digit :: digits).length =
          (10 * start + 10) * 10 ^ digits.length := by
        rw [List.length_cons]
        ring
      rw [power] at room ⊢
      have least : 10 * start + 10 ≤ (10 * start + 10) * 10 ^ digits.length :=
        Nat.le_mul_of_pos_right _ (Nat.pow_pos (by decide))
      have fits : 10 * start + digit.val ≤ maxMagnitude := by
        have small := digit.isLt
        simp only [maxMagnitude]
        omega
      have grown : addWhole ⟨start, 0, true⟩ digit = ⟨10 * start + digit.val, 0, true⟩ := by
        simp [addWhole, grown?, Digits.grow?, fits]
      have onward : (10 * start + digit.val + 1) * 10 ^ digits.length ≤
          (10 * start + 10) * 10 ^ digits.length :=
        Nat.mul_le_mul_right _ (by have small := digit.isLt; omega)
      obtain ⟨significand, below, result⟩ := ih _ (onward.trans room)
      exact ⟨significand, below.trans_le onward, by rw [List.foldl_cons, grown, result]⟩

/-- Once a digit after the point has not fitted, no other is taken in. -/
theorem foldl_addFraction_full (digits : Digits) {scaled : Scaled} (full : scaled.fits = false) :
    digits.foldl addFraction scaled = scaled := by
  induction digits with
  | nil => rfl
  | cons digit digits ih =>
      have same : addFraction scaled digit = scaled := by
        obtain ⟨significand, exponent, fits⟩ := scaled
        cases full
        rfl
      rw [List.foldl_cons, same, ih]

/-- The digits after the point that fit are taken in, each one lowering the exponent, and the
others are dropped. -/
theorem foldl_addFraction (digits : Digits) {start : Nat} (within : start ≤ maxMagnitude)
    (exponent : Int) :
    ∃ (significand taken : Nat) (fits : Bool),
      digits.foldl addFraction ⟨start, exponent, true⟩ = ⟨significand, exponent - taken, fits⟩ ∧
      start ≤ significand ∧ significand ≤ maxMagnitude ∧ taken ≤ digits.length ∧
      significand * 10 ^ (digits.length - taken) ≤
        start * 10 ^ digits.length + digits.toNat := by
  induction digits generalizing start exponent with
  | nil => exact ⟨start, 0, true, by simp, le_rfl, within, le_rfl, by simp⟩
  | cons digit digits ih =>
      rw [List.foldl_cons]
      by_cases room : 10 * start + digit.val ≤ maxMagnitude
      · have grown : addFraction ⟨start, exponent, true⟩ digit =
            ⟨10 * start + digit.val, exponent - 1, true⟩ := by
          simp [addFraction, grown?, Digits.grow?, room]
        obtain ⟨significand, taken, fits, result, least, greatest, some_left, bound⟩ :=
          ih room (exponent - 1)
        refine ⟨significand, taken + 1, fits, ?_, by omega, greatest, by simpa using some_left, ?_⟩
        · rw [grown, result]
          congr 1
          push_cast
          ring
        · rw [List.length_cons, Nat.add_sub_add_right, Digits.toNat_cons]
          refine bound.trans_eq ?_
          ring
      · have full : addFraction ⟨start, exponent, true⟩ digit = ⟨start, exponent, false⟩ := by
          simp [addFraction, grown?, Digits.grow?, room]
        refine ⟨start, 0, false, ?_, le_rfl, within, Nat.zero_le _, ?_⟩
        · rw [full, foldl_addFraction_full digits rfl]
          simp
        · simp

/-- Digits that are dropped make a number smaller. -/
theorem scaled_le {significand taken number length places exponent : Nat}
    (bound : significand * 10 ^ (length - taken) ≤ number) (dropped : taken ≤ length)
    (shift : -(taken : Int) + places = exponent) :
    (significand : ℚ) * 10 ^ exponent ≤ number * 10 ^ ((places : Int) - length) := by
  have cast : (significand : ℚ) * 10 ^ (length - taken) ≤ number := by
    exact_mod_cast bound
  calc (significand : ℚ) * 10 ^ exponent
      = significand * 10 ^ (length - taken) * 10 ^ ((places : Int) - length) := by
        rw [mul_assoc, ← zpow_natCast, ← zpow_natCast, ← zpow_add₀ (by norm_num)]
        congr 2
        omega
    _ ≤ _ := by gcongr

end Scaled

/-- Scaling down always has a result. -/
theorem isSome_scale_of_neg (steps : Nat) (x : Float) {exponent : Int} (negative : exponent < 0) :
    (scale steps x exponent).isSome := by
  induction steps generalizing x exponent with
  | zero => rfl
  | succ steps ih =>
      rw [scale]
      split
      · rw [if_neg (by omega)]
        rfl
      · split
        · rfl
        · rw [if_neg (by omega)]
          exact ih _ (by omega)

/-- A float written without an exponent is within the range of floats. -/
theorem Positional.isSome_magnitude? {numeral : Numeral} (positional : numeral.Positional) :
    numeral.magnitude?.isSome := by
  obtain ⟨short, nonempty, exponent⟩ := positional
  obtain ⟨digit, digits, fraction⟩ := List.exists_cons_of_ne_nil nonempty
  have room : (0 + 1) * 10 ^ numeral.whole.length ≤ 10 ^ 16 := by
    rw [Nat.zero_add, Nat.one_mul]
    exact Nat.pow_le_pow_right (by decide) short
  have size : 10 ^ 16 ≤ UInt64.size := by decide
  obtain ⟨significand, below, whole⟩ := Scaled.foldl_addWhole numeral.whole 0 (room.trans size)
  have fits : 10 * significand + digit.val ≤ maxMagnitude := by
    have small := digit.isLt
    have large : 10 ^ 17 ≤ maxMagnitude := by decide
    omega
  have first : Scaled.addFraction ⟨significand, 0, true⟩ digit =
      ⟨10 * significand + digit.val, -1, true⟩ := by
    simp [Scaled.addFraction, Scaled.grown?, Digits.grow?, fits]
  obtain ⟨found, taken, fitted, result, _⟩ := Scaled.foldl_addFraction digits fits (-1)
  have scaled : Scaled.ofDigits numeral.whole numeral.fraction = ⟨found, -1 - taken, fitted⟩ := by
    rw [Scaled.ofDigits, whole, fraction, List.foldl_cons, first, result]
  rw [magnitude?, scaled, exponent]
  have negative : -1 - (taken : Int) < 0 := by omega
  exact isSome_scale_of_neg _ _ negative

/-- Scaling a number within the range of floats does not leave it. -/
theorem isSome_scale {significand exponent : Nat} (steps : Nat) (fits : significand < UInt64.size)
    (positive : 0 < significand) (small : (significand : ℚ) * 10 ^ exponent ≤ FloatRange.limit) :
    (scale (steps + 1) significand.toUInt64.toFloat exponent).isSome := by
  have power := FloatRange.exponent_le positive small
  have finite := FloatRange.isInf_scaled fits positive small
  rw [scale, Int.natAbs_natCast, if_pos power, if_pos (Int.natCast_nonneg exponent)]
  dsimp only
  rw [finite]
  rfl

/-- A float written with an exponent is within the range of floats. -/
theorem Scientific.isSome_magnitude? {numeral : Numeral} {first : Fin 10} {others : Digits}
    {power : Int} (scientific : numeral.Scientific first others power) (leading : first ≠ 0)
    (small : ((Digits.toNat (first :: others) : Nat) : ℚ) * 10 ^ (power - others.length) ≤
      FloatRange.limit) : numeral.magnitude?.isSome := by
  obtain ⟨whole, fraction, exponent⟩ := scientific
  have first_pos : 0 < first.val := Nat.pos_of_ne_zero fun zero => leading (Fin.ext zero)
  have within : first.val ≤ maxMagnitude := by
    have large : 10 ≤ maxMagnitude := by decide
    have below := first.isLt
    omega
  have before : [first].foldl Scaled.addWhole {} = ⟨first.val, 0, true⟩ := by
    simp [Scaled.addWhole, Scaled.grown?, Digits.grow?, within]
  obtain ⟨significand, taken, fits, result, least, greatest, dropped, bound⟩ :=
    Scaled.foldl_addFraction others within 0
  have scaled : Scaled.ofDigits numeral.whole numeral.fraction =
      ⟨significand, -(taken : Int), fits⟩ := by
    rw [Scaled.ofDigits, whole, fraction, before, result, Int.zero_sub]
  rw [magnitude?, scaled, exponent]
  dsimp only
  by_cases negative : power < 0
  · -- the written exponent only adds to the places after the point
    rw [decide_eq_true negative]
    split
    · simp
    · rename_i written read
      have value := Digits.toNat_of_upTo? read
      rw [Digits.toNat_ofNat] at value
      exact isSome_scale_of_neg _ _ (by rw [if_pos rfl]; omega)
  · obtain ⟨places, rfl⟩ := Int.eq_ofNat_of_zero_le (Int.not_lt.mp negative)
    have leading_power : (1 : Nat) * (10 : ℚ) ^ places ≤ FloatRange.limit := by
      rw [Nat.cast_one, one_mul]
      exact (Digits.pow_le_toNat_mul first_pos others places).trans small
    have few : places ≤ maxExponent := by
      have power := FloatRange.exponent_le Nat.one_pos leading_power
      have large : 308 ≤ maxExponent := by decide
      omega
    rw [decide_eq_false negative, Int.natAbs_natCast, Digits.upTo?_ofNat few]
    dsimp only
    rw [if_neg Bool.false_ne_true]
    by_cases below : -(taken : Int) + places < 0
    · exact isSome_scale_of_neg _ _ below
    · obtain ⟨exponent, exponent_eq⟩ := Int.eq_ofNat_of_zero_le (Int.not_lt.mp below)
      rw [exponent_eq]
      have size : significand < UInt64.size := by
        simp only [maxMagnitude] at greatest
        omega
      rw [← Digits.toNat_cons] at bound
      exact isSome_scale 3 size (by omega) ((Scaled.scaled_le bound dropped exponent_eq).trans small)

end Numeral

namespace Binary

/-- The upper end is found from a mantissa and an exponent that are large enough. -/
theorem upperEnd_le_of_bounds {x : Binary} {mantissa : Nat} {exponent : Int}
    (mantissa_le : 4 * x.mantissa + 2 ≤ mantissa) (exponent_le : x.exponent - 2 ≤ exponent) :
    x.upperEnd ≤ mantissa * 2 ^ exponent := by
  have cast : 4 * (x.mantissa : ℚ) + 2 ≤ mantissa := by exact_mod_cast mantissa_le
  have power : (2 : ℚ) ^ (x.exponent - 2) ≤ 2 ^ exponent :=
    zpow_le_zpow_right₀ (by norm_num) exponent_le
  rw [upperEnd]
  gcongr

/-- Apart from the two largest ones, numbers stay away from the end of the range. -/
theorem upperEnd_ofDouble_le {x : Double} (inRange : x.magnitude.toNat + 3 ≤ 2047 * 2 ^ 52) :
    (ofDouble x).upperEnd ≤ FloatRange.limit := by
  have limit : FloatRange.limit = (2 ^ 55 - 10 : Nat) * 2 ^ (969 : Int) := by
    have split : (2 : ℚ) ^ 1024 = 2 ^ 55 * 2 ^ 969 := by rw [← pow_add]
    have half : (2 : ℚ) ^ 970 = 2 * 2 ^ 969 := by rw [← pow_succ']
    have power : (2 : ℚ) ^ (969 : Int) = 2 ^ 969 := zpow_natCast 2 969
    rw [FloatRange.limit, split, half, power]
    generalize (2 : ℚ) ^ 969 = unit
    norm_num
    ring
  have lower : ((2 ^ 55 : Nat) : ℚ) * 2 ^ (968 : Int) ≤ FloatRange.limit := by
    have half : (2 : ℚ) ^ (969 : Int) = 2 * 2 ^ (968 : Int) := by
      rw [← zpow_one_add₀ (by norm_num)]
      norm_num
    have positive : (0 : ℚ) < 2 ^ (968 : Int) := by positivity
    rw [limit, half]
    generalize (2 : ℚ) ^ (968 : Int) = unit at positive ⊢
    norm_num
    linarith only [positive]
  obtain ⟨small, mantissa, exponent⟩ | ⟨large, mantissa, exponent⟩ := ofDouble_parts x
  · exact (upperEnd_le_of_bounds (by omega) (by omega)).trans lower
  · by_cases last : x.magnitude.toNat / 2 ^ 52 = 2046
    · rw [limit]
      exact upperEnd_le_of_bounds (by omega) (by omega)
    · exact (upperEnd_le_of_bounds (by omega) (by omega)).trans lower

end Binary

namespace Numeral

/-- The two largest numbers, with either sign, can be read. -/
theorem isSome_magnitude?_largest {x : Double} (inside : x.magnitude.toNat < 2047 * 2 ^ 52)
    (largest : 2047 * 2 ^ 52 < x.magnitude.toNat + 3) : (ofDouble x).magnitude?.isSome := by
  obtain ⟨bits⟩ := x
  have sign : bits.toNat % 2 ^ 63 = (Double.mk bits).magnitude.toNat :=
    (UInt64.toNat_mod bits 0x8000000000000000).symm
  have width := bits.toNat_lt
  have known : bits = 0x7fefffffffffffff ∨ bits = 0x7feffffffffffffe ∨
      bits = 0xffefffffffffffff ∨ bits = 0xffeffffffffffffe := by
    simp only [← UInt64.toNat_inj]
    change bits.toNat = 0x7fefffffffffffff ∨ bits.toNat = 0x7feffffffffffffe ∨
      bits.toNat = 0xffefffffffffffff ∨ bits.toNat = 0xffeffffffffffffe
    omega
  rcases known with rfl | rfl | rfl | rfl <;> decide +kernel

/-- A number as it is written can be read. -/
theorem isSome_magnitude?_ofDouble {x : Double} (finite : x.magnitude < Double.infinity) :
    (ofDouble x).magnitude?.isSome := by
  by_cases zero : x.magnitude = 0
  · exact (ofDouble_zero zero).2.isSome_magnitude?
  by_cases inRange : x.magnitude.toNat + 3 ≤ 2047 * 2 ^ 52
  · obtain ⟨positive, within⟩ := Decimal.shortest_bounds .even (Binary.mantissa_pos zero)
    obtain ⟨first, others, digits, leading⟩ := Digits.exists_ofNat_cons positive
    obtain ⟨_, positional | scientific⟩ := ofDouble_forms zero digits leading
    · exact positional.isSome_magnitude?
    · refine scientific.isSome_magnitude? leading ?_
      rw [← digits, Digits.toNat_ofNat, add_sub_cancel_left]
      exact within.trans (Binary.upperEnd_ofDouble_le inRange)
  · have inside : x.magnitude.toNat < 2047 * 2 ^ 52 := UInt64.lt_iff_toNat_lt.mp finite
    exact isSome_magnitude?_largest inside (Nat.lt_of_not_le inRange)

/-- Every finite float can be read back from its numeral. -/
theorem isSome_double?_ofDouble {x : Double} (finite : x.magnitude < Double.infinity) :
    (ofDouble x).double?.isSome := by
  obtain ⟨y, read⟩ := Option.isSome_iff_exists.mp (isSome_magnitude?_ofDouble finite)
  simp [double?, read]

end Numeral

end ByteLisp
