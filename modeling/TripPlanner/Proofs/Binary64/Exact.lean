import TripPlanner.Binary64.Decimal
import Mathlib.Algebra.Order.Ring.Nat
import Mathlib.Data.Nat.Log
import Mathlib.Tactic.NormNum
import Mathlib.Tactic.Ring

/-!
# Decimals that are read exactly

A rank is a mantissa of fifty-three bits and a shift (`rank_parts`), which is why a quotient that is
exactly the value of a rank is rounded to that rank (`rankOfRatio_exact`). A decimal that writes the
value of a rank exactly is read as that rank (`Decimal.Writes.rank_eq`), zeros at its end or not, so
the shortest decimal of a rank is always read as that rank (`rank_shortest`).
-/

namespace TripPlanner

namespace Binary64

/-! ## Mantissa and shift -/

/-- How many ranks share an exponent. -/
def width : Nat := 2 ^ 52

theorem width_pos : 0 < width := Nat.pow_pos (by decide)

theorem units_eq (rank : Nat) :
    units rank = (rank - (rank / width - 1) * width) * 2 ^ (rank / width - 1) := rfl

theorem rank_parts (rank : Nat) : ∃ mantissa shift, rank = shift * width + mantissa ∧
    units rank = mantissa * 2 ^ shift ∧ mantissa < 2 * width ∧
    (shift = 0 ∨ width ≤ mantissa) := by
  have hDiv := Nat.div_add_mod' rank width
  have hMod := Nat.mod_lt rank width_pos
  generalize rank % width = rest at hDiv hMod
  refine ⟨rank - (rank / width - 1) * width, rank / width - 1, ?_, units_eq rank, ?_⟩
  all_goals cases hQuotient : rank / width with
    | zero =>
      rw [hQuotient] at hDiv
      simp only [Nat.zero_sub, Nat.zero_mul, Nat.sub_zero, true_or, and_true] at hDiv ⊢
      omega
    | succ k =>
      rw [hQuotient, Nat.succ_mul] at hDiv
      simp only [Nat.add_sub_cancel]
      omega

/-- The bits of the units beyond the mantissa are the shift. -/
theorem log2_units {mantissa shift : Nat} (hUpper : mantissa < 2 * width)
    (hLower : shift = 0 ∨ width ≤ mantissa) : (mantissa * 2 ^ shift).log2 - 52 = shift := by
  have hUpper : mantissa < 2 ^ 53 := hUpper
  rcases hLower with rfl | hLower
  · rcases Nat.eq_zero_or_pos mantissa with rfl | hPos
    · simp
    · have hLog := (Nat.log2_lt hPos.ne').mpr hUpper
      rw [pow_zero, Nat.mul_one]
      omega
  · have hLower : 2 ^ 52 ≤ mantissa := hLower
    have hNe : mantissa * 2 ^ shift ≠ 0 :=
      (Nat.mul_pos (Nat.lt_of_lt_of_le (by decide) hLower) (Nat.pow_pos (by decide))).ne'
    have hAtLeast : 52 + shift ≤ (mantissa * 2 ^ shift).log2 := by
      rw [Nat.le_log2 hNe, pow_add]
      exact Nat.mul_le_mul_right _ hLower
    have hBelow : (mantissa * 2 ^ shift).log2 < 53 + shift := by
      rw [Nat.log2_lt hNe, pow_add]
      exact Nat.mul_lt_mul_of_pos_right hUpper (Nat.pow_pos (by decide))
    omega

/-- A quotient that leaves no remainder needs no rounding. -/
theorem roundToEven_mul {n den : Nat} (hDen : 0 < den) : roundToEven (n * den) den = n := by
  simp only [roundToEven, Nat.mul_mod_left, Nat.mul_div_cancel _ hDen, Nat.mul_zero, if_pos hDen]

/-- A quotient that is the value of a rank is rounded to that rank. -/
theorem rankOfRatio_exact {num den rank : Nat} (hDen : 0 < den)
    (hValue : num * one = units rank * den) : rankOfRatio num den = rank := by
  obtain ⟨mantissa, shift, hRank, hUnits, hUpper, hLower⟩ := rank_parts rank
  have hShift : (num * one / den).log2 - 52 = shift := by
    rw [hValue, Nat.mul_div_cancel _ hDen, hUnits, log2_units hUpper hLower]
  have hRound : roundToEven (num * one) (den * 2 ^ shift) = mantissa := by
    rw [hValue, hUnits, show mantissa * 2 ^ shift * den = mantissa * (den * 2 ^ shift) by ring]
    exact roundToEven_mul (Nat.mul_pos hDen (Nat.pow_pos (by decide)))
  calc rankOfRatio num den
      = ((num * one / den).log2 - 52) * width +
          roundToEven (num * one) (den * 2 ^ ((num * one / den).log2 - 52)) := rfl
    _ = rank := by rw [hShift, hRound, hRank]

theorem units_eq_zero {rank : Nat} (h : units rank = 0) : rank = 0 := by
  obtain ⟨mantissa, shift, hRank, hUnits, -, hLower⟩ := rank_parts rank
  have hMantissa : mantissa = 0 := by
    rcases Nat.mul_eq_zero.mp (hUnits.symm.trans h) with hZero | hZero
    · exact hZero
    · exact absurd hZero (Nat.pow_pos (by decide)).ne'
  have hPos := width_pos
  rcases hLower with rfl | hLower
  · rw [hRank, hMantissa, Nat.zero_mul]
  · omega

/-- The units of a finite number. -/
theorem units_lt {rank : Nat} (h : rank < ranks) : units rank < 2 ^ 2098 := by
  obtain ⟨mantissa, shift, hRank, hUnits, hUpper, hLower⟩ := rank_parts rank
  have hRanks : rank < 2047 * width := h
  have hShift : shift ≤ 2045 := by
    rcases hLower with rfl | hLower
    · exact Nat.zero_le _
    · have hMul : (shift + 1) * width < 2047 * width := by
        rw [Nat.succ_mul]
        omega
      have hLt := Nat.lt_of_mul_lt_mul_right hMul
      omega
  rw [hUnits, show (2098 : Nat) = 53 + 2045 from rfl, pow_add]
  exact Nat.mul_lt_mul_of_lt_of_le hUpper (Nat.pow_le_pow_right (by decide) hShift)
    (Nat.pow_pos (by decide))

end Binary64

/-! ## Decimals -/

namespace Decimal

open Binary64

/-- A decimal writes the value of a rank exactly. -/
def Writes (d : Decimal) (rank : Nat) : Prop :=
  d.numerator * one = units rank * d.denominator

theorem denominator_pos (d : Decimal) : 0 < d.denominator := Nat.pow_pos (by decide)

theorem one_lt : one < 10 ^ 400 := by
  decide +kernel

theorem large_lt : 2 ^ 2098 ≤ 10 ^ 400 * one := by
  decide +kernel

/-- The value of a rank is not so small that its exponent would settle it. -/
theorem Writes.not_small {d : Decimal} {rank : Nat} (h : d.Writes rank) (hDigits : d.digits ≠ 0) :
    ¬ d.exponent + (d.digits.log2 + 1 : Nat) < -400 := by
  intro hSmall
  have hNumerator : d.numerator = d.digits := by
    rw [numerator, Int.toNat_of_nonpos (by omega)]
    exact Nat.mul_one _
  have hDigits' : d.digits < 10 ^ (d.digits.log2 + 1) :=
    Nat.lt_log2_self.trans_le (Nat.pow_le_pow_left (by decide) _)
  have hBelow : d.numerator * one < d.denominator := by
    calc d.numerator * one
        < 10 ^ (d.digits.log2 + 1) * 10 ^ 400 := by
          rw [hNumerator]
          exact Nat.mul_lt_mul_of_lt_of_le hDigits' one_lt.le (Nat.pow_pos (by decide))
      _ = 10 ^ (d.digits.log2 + 401) := (pow_add 10 _ _).symm
      _ ≤ d.denominator := Nat.pow_le_pow_right (by decide) (by omega)
  have hUnits : 0 < units rank := Nat.pos_of_ne_zero fun hZero => by
    have hProduct : d.numerator * one = 0 := by rw [h, hZero, Nat.zero_mul]
    rw [hNumerator] at hProduct
    exact (Nat.mul_pos (Nat.pos_of_ne_zero hDigits) (Nat.pow_pos (by decide))).ne' hProduct
  have hAbove : d.denominator ≤ units rank * d.denominator := Nat.le_mul_of_pos_left _ hUnits
  exact absurd (h ▸ hBelow) (Nat.not_lt.mpr hAbove)

/-- The value of a finite number is not so large that its exponent would settle it. -/
theorem Writes.not_large {d : Decimal} {rank : Nat} (h : d.Writes rank) (hDigits : d.digits ≠ 0)
    (hRank : rank < ranks) : ¬ 400 < d.exponent := by
  intro hLarge
  have hDenominator : d.denominator = 1 := by
    rw [denominator, Int.toNat_of_nonpos (by omega)]
  have hNumerator : 10 ^ 400 ≤ d.numerator :=
    (Nat.pow_le_pow_right (show 0 < 10 by decide) (by omega)).trans
      (Nat.le_mul_of_pos_left _ (Nat.pos_of_ne_zero hDigits))
  have hUnits : units rank = d.numerator * one := by rw [h, hDenominator, Nat.mul_one]
  have hAbove : 2 ^ 2098 ≤ units rank := hUnits ▸ large_lt.trans (Nat.mul_le_mul_right _ hNumerator)
  exact absurd (units_lt hRank) (Nat.not_lt.mpr hAbove)

/-- A decimal that writes the value of a rank is read as that rank. -/
theorem Writes.rank_eq {d : Decimal} {rank : Nat} (h : d.Writes rank) (hRank : rank < ranks) :
    d.rank = rank := by
  by_cases hDigits : d.digits = 0
  · have hUnits : units rank * d.denominator = 0 := by
      rw [← h, numerator, hDigits, Nat.zero_mul, Nat.zero_mul]
    rcases Nat.mul_eq_zero.mp hUnits with hZero | hZero
    · rw [Decimal.rank, if_pos (Or.inl hDigits), units_eq_zero hZero]
    · exact absurd hZero d.denominator_pos.ne'
  · rw [Decimal.rank, if_neg (not_or.mpr ⟨hDigits, h.not_small hDigits⟩),
      if_neg (h.not_large hDigits hRank)]
    exact rankOfRatio_exact d.denominator_pos h

/-- Where a zero moves from the digits into the exponent, the quotient is reduced or stays. -/
theorem reduced {n : Nat} (h : n % 10 = 0) (exponent : Int) :
    ∃ k, 0 < k ∧ numerator ⟨n, exponent⟩ = numerator ⟨n / 10, exponent + 1⟩ * k ∧
      denominator ⟨n, exponent⟩ = denominator ⟨n / 10, exponent + 1⟩ * k := by
  have hDigits : n / 10 * 10 = n := by omega
  simp only [numerator, denominator, Nat.pow_eq]
  rcases Int.lt_or_le exponent 0 with hNegative | hPositive
  · refine ⟨10, by decide, ?_, ?_⟩
    · rw [Int.toNat_of_nonpos (by omega), Int.toNat_of_nonpos (by omega), pow_zero, Nat.mul_one,
        Nat.mul_one, hDigits]
    · rw [← pow_succ]
      congr 1
      omega
  · refine ⟨1, Nat.one_pos, ?_, ?_⟩
    · rw [show (exponent + 1).toNat = exponent.toNat + 1 by omega, Nat.mul_one, pow_succ',
        ← Nat.mul_assoc, hDigits]
    · rw [Int.toNat_of_nonpos (by omega), Int.toNat_of_nonpos (by omega), Nat.mul_one]

theorem Writes.stripFrom {n : Nat} {exponent : Int} {rank : Nat}
    (h : Writes ⟨n, exponent⟩ rank) : (stripFrom n exponent).Writes rank := by
  induction n, exponent using stripFrom.induct with
  | case1 n exponent hZero ih =>
    rw [Decimal.stripFrom, dif_pos hZero]
    obtain ⟨k, hPos, hNumerator, hDenominator⟩ := reduced hZero.2 exponent
    refine ih (Nat.eq_of_mul_eq_mul_right hPos ?_)
    rw [Writes, hNumerator, hDenominator] at h
    rw [Nat.mul_right_comm, h, Nat.mul_assoc]
  | case2 n exponent hNonzero =>
    rw [Decimal.stripFrom, dif_neg hNonzero]
    exact h

end Decimal

namespace Binary64

/-- A unit is a decimal: a power of two below is one of five above and one of ten below. -/
theorem pow_five (n k : Nat) : n * 5 ^ k * 10 ^ 0 * 2 ^ k = n * 10 ^ k := by
  have hTen : 5 ^ k * 2 ^ k = 10 ^ k := (mul_pow 5 2 k).symm
  rw [pow_zero, Nat.mul_one, Nat.mul_assoc, hTen]

theorem rank_exact {rank : Nat} (h : rank < ranks) : (exact rank).rank = rank := by
  have hWrites : Decimal.Writes ⟨units rank * Nat.pow 5 1074, -1074⟩ rank := pow_five _ 1074
  exact hWrites.stripFrom.rank_eq h

theorem rank_readAs? {rank : Nat} {takesHigh : Bool} {low high d : Decimal}
    (h : readAs? rank takesHigh low high = some d) : d.rank = rank := by
  rw [readAs?] at h
  split at h
  case h_1 hLow hHigh =>
    cases takesHigh with
    | false => exact Option.some.inj h ▸ beq_iff_eq.mp hLow
    | true => exact Option.some.inj h ▸ beq_iff_eq.mp hHigh
  case h_2 hLow _ => exact Option.some.inj h ▸ beq_iff_eq.mp hLow
  case h_3 _ hHigh => exact Option.some.inj h ▸ beq_iff_eq.mp hHigh
  case h_4 => cases h

theorem rank_withDigits? {tie : Tie} {rank count : Nat} {d : Decimal}
    (h : withDigits? tie rank count = some d) : d.rank = rank := by
  rw [withDigits?] at h
  exact rank_readAs? h

/-- The shortest decimal of a rank is read as that rank. -/
theorem rank_shortest (tie : Tie) {rank : Nat} (h : rank < ranks) :
    (shortest tie rank).rank = rank := by
  rw [shortest]
  split
  case isTrue hZero => exact (if_pos (Or.inl rfl)).trans hZero.symm
  case isFalse =>
    generalize hFound : ((List.range 17).map (· + 1)).findSome? (withDigits? tie rank) = found
    cases found with
    | none =>
      rw [Option.getD_none]
      exact rank_exact h
    | some d =>
      rw [Option.getD_some]
      obtain ⟨count, -, hDecimal⟩ := List.exists_of_findSome?_eq_some hFound
      exact rank_withDigits? hDecimal

end Binary64

end TripPlanner
