import TripPlanner.Binary64.Layout
import TripPlanner.Binary64.Reader
import TripPlanner.Proofs.Binary64.Exact
import TripPlanner.Proofs.Text.Numerals

/-!
# Numbers read back

Links write a number without exponent. The digits on both sides of the point give back the decimal
that was laid out, apart from the zeros that take the place of a positive exponent
(`decimal?_positionally`), and those do not change how the decimal is read (`rank_flattened`). As
the decimal is read as the number it was made for, the text of every finite number is read as that
number, with its sign (`ofText?_number`).
-/

namespace TripPlanner

open Text

namespace Layout

/-- The characters of numbers in links. -/
def isNumeric (c : Char) : Bool := isDigit c || c = '.' || c = '-'

variable {ds : List Char} {point : Int}

/-- A number begins with a digit. -/
theorem positionally_cons (hDigits : ∀ c ∈ ds, isDigit c = true) (hNe : ds ≠ []) (point : Int) :
    ∃ c rest, plain.positionally ds point = c :: rest ∧ isDigit c = true := by
  obtain ⟨d, ds, rfl⟩ := List.exists_cons_of_ne_nil hNe
  have hHead := hDigits d List.mem_cons_self
  rw [positionally]
  split
  · exact ⟨'0', _, rfl, rfl⟩
  split
  case isTrue hPoint _ =>
    obtain ⟨n, hn⟩ := Nat.exists_eq_succ_of_ne_zero (show point.toNat ≠ 0 by omega)
    rw [hn]
    exact ⟨d, _, rfl, hHead⟩
  case isFalse => exact ⟨d, _, rfl, hHead⟩

theorem isNumeric_of_mem_positionally (hDigits : ∀ c ∈ ds, isDigit c = true) {c : Char}
    (h : c ∈ plain.positionally ds point) : isNumeric c = true := by
  have hOfDigit : isDigit c = true → isNumeric c = true := fun hDigit => by
    simp [isNumeric, hDigit]
  rw [positionally] at h
  split at h
  · simp only [List.mem_cons, List.mem_append] at h
    rcases h with rfl | rfl | h | h
    · rfl
    · rfl
    · exact hOfDigit (isDigit_of_mem_replicate h)
    · exact hOfDigit (hDigits c h)
  split at h
  · simp only [List.mem_cons, List.mem_append] at h
    rcases h with h | rfl | h
    · exact hOfDigit (hDigits c (List.mem_of_mem_take h))
    · rfl
    · exact hOfDigit (hDigits c (List.mem_of_mem_drop h))
  · simp only [plain, Bool.false_eq_true, if_false, List.append_nil, List.mem_append] at h
    rcases h with h | h
    · exact hOfDigit (hDigits c h)
    · exact hOfDigit (isDigit_of_mem_replicate h)

end Layout

namespace Binary64

open Layout

/-! ## Decimals -/

/-- The digits before and after a point, read. -/
theorem decimal?_point {whole part : List Char} (hWhole : ∀ c ∈ whole, isDigit c = true)
    (hPart : ∀ c ∈ part, isDigit c = true) (hNe : whole ≠ []) :
    decimal? (whole ++ '.' :: part) = some ⟨ofDigits (whole ++ part), -part.length⟩ := by
  have hSpan : spanDigits part = (part, []) := by
    simpa using spanDigits_append hPart stopsDigits_nil
  rw [decimal?, spanDigits_append hWhole (stopsDigits_cons rfl part)]
  simp [fraction, hSpan, hNe, exponent?]

/-- Digits without a point, read. -/
theorem decimal?_digits {whole : List Char} (hWhole : ∀ c ∈ whole, isDigit c = true)
    (hNe : whole ≠ []) : decimal? whole = some ⟨ofDigits whole, 0⟩ := by
  have hSpan : spanDigits whole = (whole, []) := by
    simpa using spanDigits_append hWhole stopsDigits_nil
  rw [decimal?, hSpan]
  simp [fraction, hNe, exponent?]

/-- A decimal laid out without exponent is read as it was but for a positive exponent. -/
theorem decimal?_positionally {ds : List Char} (hDigits : ∀ c ∈ ds, isDigit c = true)
    (hNe : ds ≠ []) (exponent : Int) :
    decimal? (plain.positionally ds (ds.length + exponent)) =
      some ⟨ofDigits ds * 10 ^ exponent.toNat, min 0 exponent⟩ := by
  have hLength := List.length_pos_iff.mpr hNe
  rw [positionally]
  split
  case isTrue hPoint =>
    have hPart : ∀ c ∈ List.replicate (-(ds.length + exponent)).toNat '0' ++ ds,
        isDigit c = true := fun c hMem => (List.mem_append.mp hMem).elim isDigit_of_mem_replicate
          (hDigits c)
    have hZero : ['0'] = List.replicate 1 '0' := rfl
    have hExponent : exponent.toNat = 0 := by omega
    rw [← List.singleton_append, ← List.nil_append ('.' :: _), ← List.append_assoc,
      List.append_nil, decimal?_point (by simp [isDigit]) hPart (by simp), hZero,
      ofDigits_zeros_append, ofDigits_zeros_append, hExponent, pow_zero, Nat.mul_one]
    congr 2
    rw [List.length_append, List.length_replicate]
    omega
  split
  case isTrue hPoint hLess =>
    have hPositive : 0 < (ds.length + exponent).toNat := by omega
    have hExponent : exponent.toNat = 0 := by omega
    rw [decimal?_point (fun c hMem => hDigits c (List.mem_of_mem_take hMem))
        (fun c hMem => hDigits c (List.mem_of_mem_drop hMem))
        (by simp [List.take_eq_nil_iff, hNe, hPositive.ne']),
      List.take_append_drop, hExponent, pow_zero, Nat.mul_one]
    congr 2
    rw [List.length_drop]
    omega
  case isFalse hPoint hLess =>
    have hAll : ∀ c ∈ ds ++ List.replicate ((ds.length + exponent).toNat - ds.length) '0',
        isDigit c = true := fun c hMem => (List.mem_append.mp hMem).elim (hDigits c)
          isDigit_of_mem_replicate
    simp only [plain, Bool.false_eq_true, if_false, List.append_nil]
    rw [decimal?_digits hAll (by simp [hNe]), ofDigits_append_zeros]
    congr 3
    · congr 1
      omega
    · omega

/-- The rank of a decimal that its exponent does not settle. -/
theorem rank_of_ordinary {n : Nat} {exponent : Int} (hDigits : n ≠ 0) (hSmall : -400 ≤ exponent)
    (hLarge : exponent ≤ 400) :
    Decimal.rank ⟨n, exponent⟩ =
      rankOfRatio (Decimal.numerator ⟨n, exponent⟩) (Decimal.denominator ⟨n, exponent⟩) := by
  have hNotSmall : ¬ exponent + (n.log2 + 1 : Nat) < -400 := by omega
  rw [Decimal.rank, if_neg (not_or.mpr ⟨hDigits, hNotSmall⟩), if_neg (Int.not_lt.mpr hLarge)]

/-- A positive exponent may stand as zeros among the digits. -/
theorem rank_flattened {d : Decimal} (h : d.rank < ranks) :
    Decimal.rank ⟨d.digits * 10 ^ d.exponent.toNat, min 0 d.exponent⟩ = d.rank := by
  obtain ⟨n, exponent⟩ := d
  rcases Int.lt_or_le 0 exponent with hPositive | hNegative
  · simp only [min_eq_left hPositive.le]
    by_cases hZero : n = 0
    · simp [Decimal.rank, hZero]
    have hLarge : ¬ 400 < exponent := fun hLarge => by
      have hSmall : ¬ exponent + (n.log2 + 1 : Nat) < -400 := by omega
      rw [Decimal.rank, if_neg (not_or.mpr ⟨hZero, hSmall⟩), if_pos hLarge] at h
      exact Nat.lt_irrefl _ h
    have hNe : n * 10 ^ exponent.toNat ≠ 0 := Nat.mul_ne_zero hZero (Nat.pow_pos (by decide)).ne'
    have hNumerator : Decimal.numerator ⟨n * 10 ^ exponent.toNat, 0⟩ =
        Decimal.numerator ⟨n, exponent⟩ := Nat.mul_one _
    have hDenominator : Decimal.denominator ⟨n * 10 ^ exponent.toNat, 0⟩ =
        Decimal.denominator ⟨n, exponent⟩ := by
      simp only [Decimal.denominator, Int.toNat_of_nonpos (Int.neg_nonpos_of_nonneg hPositive.le)]
      rfl
    rw [rank_of_ordinary hNe (by decide) (by decide), rank_of_ordinary hZero (by omega) (by omega),
      hNumerator, hDenominator]
  · simp only [min_eq_right hNegative, Int.toNat_of_nonpos hNegative, pow_zero, Nat.mul_one]

theorem decimal?_decimal {d : Decimal} (h : d.rank < ranks) :
    ∃ d', decimal? (plain.decimal d) = some d' ∧ d'.rank = d.rank := by
  refine ⟨_, decimal?_positionally (fun _ => isDigit_of_mem_digits) (digits_ne_nil _) d.exponent,
    ?_⟩
  rw [ofDigits_digits]
  exact rank_flattened h

/-! ## Numbers -/

/-- What begins with a digit is a decimal and no word. -/
theorem unsigned?_cons {c : Char} (h : isDigit c = true) (negative : Bool) (rest : List Char) :
    unsigned? negative (c :: rest) = (decimal? (c :: rest)).map (Decimal.toNumber negative) := by
  have hBounds := isDigit_iff.mp h
  have hLower : c.toLower = c := by
    refine dif_neg ?_
    rintro ⟨hLow, -⟩
    have hLow : 65 ≤ c.toNat := hLow
    omega
  have hWord : ∀ d : Char, isDigit d = false → ∀ word : List Char,
      (c :: rest).map Char.toLower ≠ d :: word := by
    intro d hLetter word hEq
    rw [List.map_cons, hLower] at hEq
    cases hEq
    rw [h] at hLetter
    cases hLetter
  have hInfinity : "infinity".toList = 'i' :: "nfinity".toList := by decide
  have hNotInfinite : ¬ ((c :: rest).map Char.toLower = ['i', 'n', 'f'] ∨
      (c :: rest).map Char.toLower = "infinity".toList) := by
    rw [hInfinity]
    exact not_or.mpr ⟨hWord 'i' rfl _, hWord 'i' rfl _⟩
  rw [unsigned?, if_neg hNotInfinite, if_neg (hWord 'n' rfl _)]

theorem signed_cons {c : Char} (h : isDigit c = true) (rest : List Char) :
    signed (c :: rest) = (false, c :: rest) := by
  unfold signed
  split
  case h_1 hEq =>
    cases hEq
    cases h
  case h_2 hEq =>
    cases hEq
    cases h
  case h_3 => rfl

theorem isNumeric_of_mem_number {x : Binary64} (h : x.isFinite = true) {c : Char}
    (hMem : c ∈ plain.number x) : isNumeric c = true := by
  cases x with
  | infinite negative => cases h
  | nan => cases h
  | finite negative rank =>
    rcases List.mem_append.mp hMem with hSign | hDecimal
    · cases negative with
      | false => cases hSign
      | true =>
        rw [List.mem_singleton.mp hSign]
        rfl
    · exact isNumeric_of_mem_positionally (fun _ => isDigit_of_mem_digits) hDecimal

/-- The text of a finite number is read as that number. -/
theorem ofText?_number {x : Binary64} (h : x.isFinite = true) :
    ofText? (plain.number x) = some x := by
  cases x with
  | infinite negative => cases h
  | nan => cases h
  | finite negative rank =>
    have hRank := rank_shortest plain.tie rank.isLt
    obtain ⟨d, hDecimal, hSame⟩ := decimal?_decimal (hRank.symm ▸ rank.isLt)
    obtain ⟨c, rest, hText, hDigit⟩ : ∃ c rest,
        plain.decimal (shortest plain.tie rank) = c :: rest ∧ isDigit c = true :=
      positionally_cons (fun _ => isDigit_of_mem_digits) (digits_ne_nil _) _
    have hNumber : ofRank negative d.rank = .finite negative rank := by
      rw [hSame, hRank, ofRank, dif_pos rank.isLt]
    rw [hText] at hDecimal
    have hUnsigned : unsigned? negative (c :: rest) = some (.finite negative rank) := by
      rw [unsigned?_cons hDigit, hDecimal, Option.map_some, Decimal.toNumber, hNumber]
    rw [number, hText]
    cases negative with
    | true => exact hUnsigned
    | false =>
      simp only [Bool.false_eq_true, if_false, List.nil_append]
      rw [ofText?, signed_cons hDigit]
      exact hUnsigned

end Binary64

end TripPlanner
