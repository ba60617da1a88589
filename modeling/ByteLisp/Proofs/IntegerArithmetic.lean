import ByteLisp.Primitive.Call
import Mathlib.Data.List.Induction
import Mathlib.Data.Rat.Floor

/-!
# Integer arithmetic

Arithmetic on integers is exact or refused. A sum, product or difference of many numbers is
computed from left to right, and is refused as soon as a partial result does not fit 64 bits, also
when the end result would fit again. Division truncates toward zero. The least integer divided by
`-1` is the only quotient that does not fit, and its remainder is there all the same.
`Arithmetic.integers_exact_or_refused` says this of all integers.
-/

namespace ByteLisp

namespace Arithmetic

/-- The integer is one of those that 64 bits hold. -/
def Fits (n : Int) : Prop :=
  -2 ^ 63 ≤ n ∧ n < 2 ^ 63

instance (n : Int) : Decidable (Fits n) :=
  inferInstanceAs (Decidable (_ ∧ _))

/-- Every machine integer fits. -/
theorem fits_toInt (n : Int64) : Fits n.toInt :=
  ⟨n.le_toInt, n.toInt_lt⟩

/-- A number is kept by the machine exactly when it fits. -/
theorem toInt_ofInt_iff {n : Int} : (Int64.ofInt n).toInt = n ↔ Fits n := by
  constructor
  · intro same
    rw [← same]
    exact fits_toInt _
  · rintro ⟨low, high⟩
    exact Int64.toInt_ofInt_of_le low high

/-- A result that fits is given as it is. -/
theorem checked_of_fits (operation : ArithmeticOp) {result : Int} (fits : Fits result) :
    ∃ n : Int64, n.toInt = result ∧ checked operation result = .ok (.int n) :=
  ⟨Int64.ofInt result, toInt_ofInt_iff.mpr fits, if_pos (toInt_ofInt_iff.mpr fits)⟩

/-- A result that does not fit is refused as an overflow. -/
theorem checked_of_not_fits (operation : ArithmeticOp) {result : Int} (large : ¬ Fits result) :
    checked operation result = .error (.overflow operation) :=
  if_neg (mt toInt_ofInt_iff.mp large)

/-- An integer is given as the one value that stands for it. -/
theorem ok_int_eq_ok_iff {n : Int64} {result : Int} (same : n.toInt = result) {value : Value} :
    (.ok (.int n) : Except Fault Value) = .ok value ↔
      ∃ m : Int64, value = .int m ∧ m.toInt = result := by
  constructor
  · rintro ⟨⟩
    exact ⟨n, rfl, same⟩
  · rintro ⟨m, rfl, alike⟩
    rw [Int64.toInt_inj.mp (same.trans alike.symm)]

/-- The check gives a value exactly when the result fits, and the value is the result. -/
theorem checked_eq_ok_iff {operation : ArithmeticOp} {result : Int} {value : Value} :
    checked operation result = .ok value ↔
      Fits result ∧ ∃ n : Int64, value = .int n ∧ n.toInt = result := by
  by_cases fits : Fits result
  · obtain ⟨n, same, given⟩ := checked_of_fits operation fits
    rw [given, ok_int_eq_ok_iff same, and_iff_right fits]
  · simp [checked_of_not_fits operation fits, fits]

/-- The check reports an overflow exactly when the result does not fit. -/
theorem checked_eq_overflow_iff {operation : ArithmeticOp} {result : Int} :
    checked operation result = .error (.overflow operation) ↔ ¬ Fits result := by
  refine ⟨fun refused fits => ?_, checked_of_not_fits operation⟩
  obtain ⟨n, -, given⟩ := checked_of_fits operation fits
  rw [given] at refused
  cases refused

/-! ## Many numbers from left to right -/

/-- The outcome of going through the numbers from left to right, where `exact` tells what each
beginning of them comes to. The exact result is given when all partial results fit, and only then;
otherwise it is refused. -/
structure ExactOrRefused (operation : ArithmeticOp) (exact : List Int64 → Int)
    (numbers : List Int64) (outcome : Except Fault Value) : Prop where
  given : ∀ value, outcome = .ok value ↔
    (∀ front, front <+: numbers → Fits (exact front)) ∧
      ∃ n : Int64, value = .int n ∧ n.toInt = exact numbers
  refused : outcome = .error (.overflow operation) ↔
    ∃ front, front <+: numbers ∧ ¬ Fits (exact front)

section Folding

variable {operation : ArithmeticOp} {onIntegers : Int → Int → Int}
  {onDoubles : Double → Double → Double} {exact : List Int64 → Int} {numbers : List Int64}

/-- On two integers the operation is the exact one, with the check behind it. -/
theorem apply_int (a b : Int64) :
    apply operation onIntegers onDoubles (.int a) (.int b) =
      checked operation (onIntegers a.toInt b.toInt) :=
  rfl

/-- When all partial results fit, the last of them is given. -/
theorem exactOrRefused_ok {n : Int64} (fit : ∀ front, front <+: numbers → Fits (exact front))
    (result : n.toInt = exact numbers) :
    ExactOrRefused operation exact numbers (.ok (.int n)) where
  given value := by rw [ok_int_eq_ok_iff result, and_iff_right fit]
  refused := by
    constructor
    · rintro ⟨⟩
    · rintro ⟨front, isFront, large⟩
      exact absurd (fit front isFront) large

/-- When some partial result does not fit, an overflow is reported. -/
theorem exactOrRefused_error {front : List Int64} (isFront : front <+: numbers)
    (large : ¬ Fits (exact front)) :
    ExactOrRefused operation exact numbers (.error (.overflow operation)) where
  given value := by
    constructor
    · rintro ⟨⟩
    · rintro ⟨fit, -⟩
      exact absurd (fit front isFront) large
  refused := ⟨fun _ => ⟨front, isFront, large⟩, fun _ => rfl⟩

/-- One more number: what has been refused stays refused, and an exact result is carried on
exactly or refused. -/
theorem ExactOrRefused.next {outcome : Except Fault Value}
    (before : ExactOrRefused operation exact numbers outcome) (n : Int64)
    (further : exact (numbers ++ [n]) = onIntegers (exact numbers) n.toInt) :
    ExactOrRefused operation exact (numbers ++ [n])
      (outcome >>= fun value => apply operation onIntegers onDoubles value (.int n)) := by
  by_cases fit : ∀ front, front <+: numbers → Fits (exact front)
  · obtain ⟨reached, same⟩ : ∃ reached : Int64, reached.toInt = exact numbers :=
      ⟨Int64.ofInt (exact numbers), toInt_ofInt_iff.mpr (fit numbers (List.prefix_refl numbers))⟩
    rw [(before.given (.int reached)).mpr ⟨fit, reached, rfl, same⟩]
    -- Only the new partial result is left to check.
    simp only [bind, Except.bind, apply_int]
    rw [same, ← further]
    by_cases last : Fits (exact (numbers ++ [n]))
    · obtain ⟨sum, result, given⟩ := checked_of_fits operation last
      rw [given]
      refine exactOrRefused_ok (fun front isFront => ?_) result
      obtain rfl | early := List.prefix_concat_iff.mp isFront
      · exact last
      · exact fit front early
    · rw [checked_of_not_fits operation last]
      exact exactOrRefused_error (List.prefix_refl _) last
  · obtain ⟨front, isFront, large⟩ : ∃ front, front <+: numbers ∧ ¬ Fits (exact front) := by
      simpa using fit
    rw [before.refused.mpr ⟨front, isFront, large⟩]
    exact exactOrRefused_error (isFront.trans (List.prefix_append numbers [n])) large

/-- All numbers, from a first one on. -/
theorem exactOrRefused_foldlM {seed : Int64} (start : exact [] = seed.toInt)
    (further : ∀ front n, exact (front ++ [n]) = onIntegers (exact front) n.toInt)
    (numbers : List Int64) :
    ExactOrRefused operation exact numbers
      ((numbers.map Value.int).foldlM (apply operation onIntegers onDoubles) (.int seed)) := by
  -- From the end, since the partial results are those of the beginnings.
  induction numbers using List.reverseRecOn with
  | nil =>
      refine exactOrRefused_ok (fun front isFront => ?_) start.symm
      rw [List.prefix_nil.mp isFront, start]
      exact fits_toInt seed
  | append_singleton numbers n ih =>
      rw [List.map_append, List.foldlM_append]
      simpa using ih.next n (further numbers n)

end Folding

/-- Only the least integer has no negative. -/
theorem fits_neg_iff {n : Int64} : Fits (-n.toInt) ↔ n ≠ Int64.minValue := by
  rw [← Int64.toInt_inj.ne, Int64.toInt_minValue]
  obtain ⟨low, high⟩ := fits_toInt n
  constructor
  · rintro ⟨-, below⟩
    omega
  · intro above
    constructor <;> omega

/-! ## Division -/

/-- A rational number without its fractional part. -/
def truncated (x : ℚ) : Int :=
  if 0 ≤ x then ⌊x⌋ else ⌈x⌉

/-- Rounding towards zero is symmetric. -/
theorem truncated_neg (x : ℚ) : truncated (-x) = -truncated x := by
  unfold truncated
  obtain negative | rfl | positive := lt_trichotomy x 0
  · rw [if_pos (by linarith), if_neg (by linarith), Int.floor_neg]
  · simp
  · rw [if_neg (by linarith), if_pos (by linarith), Int.ceil_neg]

/-- The quotient that division of integers gives is the exact quotient, truncated. -/
theorem tdiv_eq_truncated (a b : Int) : a.tdiv b = truncated ((a : ℚ) / b) := by
  have ofNats (m n : Nat) : (m : Int).tdiv n = truncated ((m : ℚ) / n) := by
    rw [truncated, if_pos (by positivity), Rat.floor_natCast_div_natCast, ← Int.ofNat_tdiv,
      Int.natCast_ediv]
  obtain ⟨m, rfl | rfl⟩ := a.eq_nat_or_neg <;> obtain ⟨n, rfl | rfl⟩ := b.eq_nat_or_neg
  · simpa using ofNats m n
  · simpa [div_neg, truncated_neg] using ofNats m n
  · simpa [neg_div, truncated_neg] using ofNats m n
  · simpa using ofNats m n

/-- Only the least integer divided by `-1` gives a quotient that is too large. -/
theorem fits_tdiv_iff {a b : Int64} (nonzero : b ≠ 0) :
    Fits (a.toInt.tdiv b.toInt) ↔ ¬ (a = Int64.minValue ∧ b = -1) := by
  constructor
  · rintro fits ⟨rfl, rfl⟩
    revert fits
    decide
  · intro other
    obtain ⟨low, high⟩ := fits_toInt a
    by_cases unit : b.toInt.natAbs = 1
    · obtain one | minusOne := Int.natAbs_eq_iff.mp unit
      · rw [one, Int.natCast_one, Int.tdiv_one]
        exact ⟨low, high⟩
      · have above : a.toInt ≠ -2 ^ 63 := fun least =>
          other ⟨Int64.toInt_inj.mp least, Int64.toInt_inj.mp minusOne⟩
        rw [minusOne, Int.natCast_one, Int.tdiv_neg, Int.tdiv_one]
        constructor <;> omega
    · -- Any other divisor makes the quotient at most half as large.
      have notZero : b.toInt ≠ 0 := fun zero => nonzero (Int64.toInt_inj.mp zero)
      have halved : (a.toInt.tdiv b.toInt).natAbs ≤ a.toInt.natAbs / 2 := by
        rw [Int.natAbs_tdiv]
        exact Nat.div_le_div_left (by omega) (by decide)
      constructor <;> omega

/-- A remainder is smaller than its divisor. -/
theorem natAbs_tmod_lt (a : Int) {b : Int64} (nonzero : b ≠ 0) :
    (a.tmod b.toInt).natAbs < b.toInt.natAbs := by
  rw [Int.natAbs_tmod]
  exact Nat.mod_lt _ (Int.natAbs_pos.mpr fun zero => nonzero (Int64.toInt_inj.mp zero))

/-- A quotient by another number than zero is rounded towards zero and checked. -/
theorem quo_of_nonzero (a : Int64) {b : Int64} (nonzero : b ≠ 0) :
    quo (.int a) (.int b) = checked .div (a.toInt.tdiv b.toInt) :=
  if_neg nonzero

/-- A remainder is smaller than the divisor, so it always fits. -/
theorem rem_of_nonzero (a : Int64) {b : Int64} (nonzero : b ≠ 0) :
    ∃ r : Int64, r.toInt = a.toInt.tmod b.toInt ∧ rem (.int a) (.int b) = .ok (.int r) := by
  have smaller := natAbs_tmod_lt a.toInt nonzero
  obtain ⟨low, high⟩ := fits_toInt b
  refine ⟨Int64.ofInt (a.toInt.tmod b.toInt), Int64.toInt_ofInt_of_le (by omega) (by omega), ?_⟩
  simp [rem, integerOperand, Value.int?, nonzero, bind, Except.bind, pure, Except.pure]

/-- What division comes to for two integers. The exact quotient is a rational number, and the
remainder is what the truncated quotient leaves over. -/
structure Division (a b : Int64) : Prop where
  quo_by_zero : quo (.int a) (.int b) = .error .divisionByZero ↔ b = 0
  rem_by_zero : rem (.int a) (.int b) = .error .divisionByZero ↔ b = 0
  quo_too_large : quo (.int a) (.int b) = .error (.overflow .div) ↔ a = Int64.minValue ∧ b = -1
  quo_given : ∀ value, quo (.int a) (.int b) = .ok value ↔
    b ≠ 0 ∧ ¬ (a = Int64.minValue ∧ b = -1) ∧
      ∃ q : Int64, value = .int q ∧ q.toInt = truncated ((a.toInt : ℚ) / b.toInt)
  rem_given : ∀ value, rem (.int a) (.int b) = .ok value ↔
    b ≠ 0 ∧ ∃ r : Int64, value = .int r ∧
      r.toInt = a.toInt - b.toInt * truncated ((a.toInt : ℚ) / b.toInt)
  together : ∀ q r : Int64, quo (.int a) (.int b) = .ok (.int q) →
    rem (.int a) (.int b) = .ok (.int r) →
      a.toInt = q.toInt * b.toInt + r.toInt ∧ r.toInt.natAbs < b.toInt.natAbs ∧
        (r = 0 ∨ r.toInt.sign = a.toInt.sign)

/-- Quotient and remainder by zero are refused alike. -/
theorem division_by_zero (a : Int64) : Division a 0 := by
  have quotient : quo (.int a) (.int 0) = .error .divisionByZero := rfl
  have remainder : rem (.int a) (.int 0) = .error .divisionByZero := rfl
  constructor <;> simp [quotient, remainder]

/-- Quotient and remainder by any other number are those of the exact quotient. -/
theorem division_by_nonzero (a : Int64) {b : Int64} (nonzero : b ≠ 0) : Division a b := by
  have quotient := quo_of_nonzero a nonzero
  obtain ⟨r, isRemainder, remainder⟩ := rem_of_nonzero a nonzero
  constructor
  case quo_by_zero =>
    rw [quotient, checked]
    split <;> simp [nonzero]
  case rem_by_zero => simp [remainder, nonzero]
  case quo_too_large => rw [quotient, checked_eq_overflow_iff, fits_tdiv_iff nonzero, not_not]
  case quo_given =>
    intro value
    rw [quotient, checked_eq_ok_iff, fits_tdiv_iff nonzero, tdiv_eq_truncated,
      and_iff_right nonzero]
  case rem_given =>
    intro value
    rw [remainder, ok_int_eq_ok_iff isRemainder, Int.tmod_def, tdiv_eq_truncated,
      and_iff_right nonzero]
  case together =>
    intro q s quoGives remGives
    rw [remainder] at remGives
    cases remGives
    obtain ⟨-, n, ⟨⟩, isQuotient⟩ := checked_eq_ok_iff.mp (quotient.symm.trans quoGives)
    rw [isQuotient, isRemainder]
    refine ⟨(Int.tdiv_mul_add_tmod _ _).symm, natAbs_tmod_lt _ nonzero, ?_⟩
    have sign := Int.sign_tmod a.toInt b.toInt
    split at sign
    · rw [← isRemainder] at sign
      exact .inl (Int64.toInt_inj.mp (Int.sign_eq_zero_iff_zero.mp sign))
    · exact .inr sign

/-! ## All operations -/

/-- For all integers and memories:
- The built-in functions `+` and `*` of any numbers, and `-` of two or more, give the exact result
  when every partial result from left to right fits 64 bits, and only then. Otherwise the result is
  refused as an overflow.
- The negation of a number is exact. It is refused for the least integer only.
- Quotient and remainder are refused as a division by zero exactly when the divisor is zero.
- The quotient is truncated toward zero. It is refused as an overflow exactly for the least integer
  and `-1`.
- The remainder is never refused otherwise. Where both are given, the quotient times the divisor
  plus the remainder is the dividend, and the remainder is smaller than the divisor and is zero or
  has the sign of the dividend. -/
theorem integers_exact_or_refused :
    (∀ (numbers : List Int64) (memory : Memory), ∃ sum product,
      Primitive.plus.call (numbers.map .int) memory = (sum, memory) ∧
      ExactOrRefused .add (fun front => (front.map Int64.toInt).sum) numbers sum ∧
      Primitive.times.call (numbers.map .int) memory = (product, memory) ∧
      ExactOrRefused .mul (fun front => (front.map Int64.toInt).prod) numbers product) ∧
    (∀ (first second : Int64) (rest : List Int64) (memory : Memory), ∃ difference,
      Primitive.minus.call ((first :: second :: rest).map .int) memory = (difference, memory) ∧
      ExactOrRefused .sub (fun front => first.toInt - (front.map Int64.toInt).sum)
        (second :: rest) difference) ∧
    (∀ (n : Int64) (memory : Memory), ∃ negation,
      Primitive.minus.call [.int n] memory = (negation, memory) ∧
      (negation = .error (.overflow .sub) ↔ n = Int64.minValue) ∧
      ∀ value, negation = .ok value ↔
        n ≠ Int64.minValue ∧ ∃ m : Int64, value = .int m ∧ m.toInt = -n.toInt) ∧
    ∀ a b : Int64, Division a b := by
  refine ⟨fun numbers memory => ⟨_, _, rfl, ?_, rfl, ?_⟩,
    fun first second rest memory => ⟨_, rfl, ?_⟩, fun n memory => ⟨_, rfl, ?_⟩, fun a b => ?_⟩
  · exact exactOrRefused_foldlM rfl (fun front n => by simp) numbers
  · exact exactOrRefused_foldlM rfl (fun front n => by simp) numbers
  · exact exactOrRefused_foldlM (by simp) (fun front n => by simp [sub_sub]) (second :: rest)
  · exact ⟨checked_eq_overflow_iff.trans (by rw [fits_neg_iff, not_not]),
      fun value => checked_eq_ok_iff.trans (by rw [fits_neg_iff])⟩
  · by_cases zero : b = 0
    · subst zero
      exact division_by_zero a
    · exact division_by_nonzero a zero

/-- A sum is refused for a partial result that does not fit, although the end result does. The
least integer divided by `-1` has a remainder and no quotient. -/
theorem refused_midway_and_at_least :
    (Fits ([Int64.maxValue, 1, -1].map Int64.toInt).sum ∧
      Primitive.plus.call [.int Int64.maxValue, .int 1, .int (-1)] {} =
        (.error (.overflow .add), {})) ∧
    quo (.int Int64.minValue) (.int (-1)) = .error (.overflow .div) ∧
    rem (.int Int64.minValue) (.int (-1)) = .ok (.int 0) := by
  obtain ⟨sums, -, -, divisions⟩ := integers_exact_or_refused
  obtain ⟨sum, product, called, exact, -⟩ := sums [Int64.maxValue, 1, -1] {}
  have division := divisions Int64.minValue (-1)
  refine ⟨⟨by decide, ?_⟩, division.quo_too_large.mpr ⟨rfl, rfl⟩,
    (division.rem_given _).mpr ⟨by decide, 0, rfl, ?_⟩⟩
  · rw [exact.refused.mpr ⟨[Int64.maxValue, 1], by decide, by decide⟩] at called
    exact called
  · rw [← tdiv_eq_truncated]
    decide

end Arithmetic

end ByteLisp
