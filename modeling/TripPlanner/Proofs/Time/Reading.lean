import TripPlanner.Proofs.Text.Numerals
import TripPlanner.Proofs.Text.Trimming
import TripPlanner.Time.Reader

/-!
# Instants read back

Numbers of a fixed width are read up to that width, and a year that needs more than four digits has
a sign and is read to its last digit (`year?_yearText`). A fraction is written in as few groups of
three digits as it needs and is read to the nanosecond (`nanoseconds?_fractionText`), and second
sixty is read as a leap second. So an instant that can be read is read as it was written, in every
year that dates have (`ofText?_toFraction`), in whole seconds too where it has no fraction
(`ofText?_toSeconds`).

* `Instant.Regular`: an instant whose leap second, if it lies in one, ends a minute. Instants that
  have been read are regular (`Instant.regular_of_ofText?`).
-/

namespace TripPlanner

open Text

namespace Time

/-! ## Numbers and marks -/

theorem number?_some {ds : List Char} (hDigits : ∀ c ∈ ds, isDigit c = true) (hNe : ds ≠ [])
    (rest : List Char) : number? (some ds.length) (ds ++ rest) = some (ofDigits ds, rest) := by
  have hTake : ((ds ++ rest).take ds.length).takeWhile isDigit = ds := by
    rw [List.take_left, List.takeWhile_eq_self_iff.mpr hDigits]
  simp only [number?, hTake, List.isEmpty_eq_false_iff.mpr hNe, Bool.false_eq_true, if_false,
    List.drop_left]

theorem number?_none {ds rest : List Char} (hDigits : ∀ c ∈ ds, isDigit c = true) (hNe : ds ≠ [])
    (hRest : StopsDigits rest) : number? none (ds ++ rest) = some (ofDigits ds, rest) := by
  simp [number?, takeWhile_of_ends hDigits hRest, hNe]

theorem number?_padded {width n : Nat} (hWidth : 0 < width) (h : n < 10 ^ width)
    (rest : List Char) : number? (some width) (padded width n ++ rest) = some (n, rest) := by
  have hNumber := number?_some (fun _ => isDigit_of_mem_padded) (padded_ne_nil width n) rest
  rwa [length_padded hWidth h, ofDigits_padded] at hNumber

theorem trimStart_digits {ds : List Char} (hDigits : ∀ c ∈ ds, isDigit c = true) (hNe : ds ≠ [])
    (rest : List Char) : trimStart (ds ++ rest) = ds ++ rest := by
  obtain ⟨d, ds, rfl⟩ := List.exists_cons_of_ne_nil hNe
  exact trimStart_cons (isBlank_of_isDigit (hDigits d List.mem_cons_self)) _

theorem twoDigits?_padded {n : Nat} (h : n < 100) (rest : List Char) :
    twoDigits? (padded 2 n ++ rest) = some (n, rest) := by
  rw [twoDigits?, trimStart_digits (fun _ => isDigit_of_mem_padded) (padded_ne_nil 2 n),
    number?_padded (by decide) h]

theorem mark?_cons {c : Char} (h : isBlank c = false) (rest : List Char) :
    mark? c (trimStart (c :: rest)) = some rest := by
  rw [trimStart_cons h, mark?, if_pos rfl]

/-! ## Dates -/

theorem year?_of_digit {c : Char} (h : isDigit c = true) (rest : List Char) :
    year? (c :: rest) = (number? (some 4) (c :: rest)).map fun (n, s) => ((n : Int), s) := by
  unfold year?
  split
  case h_1 hEq =>
    cases hEq
    cases h
  case h_2 hEq =>
    cases hEq
    cases h
  case h_3 => rfl

/-- A year is read as it was written, if no digit follows. -/
theorem year?_yearText (year : Int) {rest : List Char} (hRest : StopsDigits rest) :
    year? (trimStart (Instant.yearText year ++ rest)) = some (year, rest) := by
  have hDigits : ∀ n, ∀ c ∈ padded 4 n, isDigit c = true := fun _ _ => isDigit_of_mem_padded
  rw [Instant.yearText]
  split
  case isTrue hFour =>
    have hNumber := number?_padded (by decide) (show year.toNat < 10 ^ 4 by omega) rest
    obtain ⟨d, ds, hText⟩ := List.exists_cons_of_ne_nil (padded_ne_nil 4 year.toNat)
    rw [trimStart_digits (hDigits _) (padded_ne_nil 4 _)]
    rw [hText] at hNumber ⊢
    rw [List.cons_append] at hNumber ⊢
    rw [year?_of_digit (hDigits year.toNat d (hText ▸ List.mem_cons_self)), hNumber]
    simp only [Option.map_some, Int.toNat_of_nonneg hFour.1]
  case isFalse hFour =>
    have hNumber := number?_none (hDigits year.natAbs) (padded_ne_nil 4 _) hRest
    rw [ofDigits_padded] at hNumber
    split
    case isTrue hNegative =>
      rw [List.cons_append, trimStart_cons (by rfl), year?, hNumber]
      simp only [Option.map_some]
      congr 2
      omega
    case isFalse hPositive =>
      rw [List.cons_append, trimStart_cons (by rfl), year?, hNumber]
      simp only [Option.map_some]
      congr 2
      omega

/-- Months are counted to twelve and days to thirty-one. -/
theorem Date.bounds (d : Date) : d.month < 100 ∧ d.day < 100 := by
  obtain ⟨year, month, day, hValid⟩ := d
  simp only [isDate, Bool.and_eq_true, decide_eq_true_eq] at hValid
  obtain ⟨⟨-, hFirst⟩, hLast⟩ := hValid
  have hDays : daysIn year month ≤ 31 := by
    unfold daysIn
    split <;> (try split) <;> decide
  have hMonth : month < 100 := by
    by_contra hLarge
    have hNone : daysIn year month = 0 := by
      unfold daysIn
      split <;> omega
    omega
  exact ⟨hMonth, by simp only; omega⟩

theorem date?_date (d : Date) (rest : List Char) :
    date? (Instant.yearText d.year ++
        '-' :: (padded 2 d.month ++ '-' :: (padded 2 d.day ++ rest))) =
      some ((d.year, d.month, d.day), rest) := by
  obtain ⟨hMonth, hDay⟩ := d.bounds
  have hDash : isDigit '-' = false := rfl
  simp only [date?, year?_yearText d.year (stopsDigits_cons hDash _), Option.bind_eq_bind,
    Option.bind_some, mark?_cons (show isBlank '-' = false from rfl), twoDigits?_padded hMonth,
    twoDigits?_padded hDay]

theorem clock?_clock {hour minute second : Nat} (hHour : hour < 100) (hMinute : minute < 100)
    (hSecond : second < 100) (rest : List Char) :
    clock? (padded 2 hour ++ ':' :: (padded 2 minute ++ ':' :: (padded 2 second ++ rest))) =
      some ((hour, minute, second), rest) := by
  simp only [clock?, Option.bind_eq_bind, Option.bind_some,
    mark?_cons (show isBlank ':' = false from rfl), twoDigits?_padded hHour,
    twoDigits?_padded hMinute, twoDigits?_padded hSecond]

/-! ## Fractions -/

theorem nanoseconds?_point {width n : Nat} (hWidth : 0 < width) (hNine : width ≤ 9)
    (h : n < 10 ^ width) {rest : List Char} (hRest : StopsDigits rest) :
    nanoseconds? ('.' :: (padded width n ++ rest)) = some (n * 10 ^ (9 - width), rest) := by
  have hDigits : ∀ c ∈ padded width n, isDigit c = true := fun _ => isDigit_of_mem_padded
  have hLength := length_padded hWidth h
  have hTake : (padded width n).take 9 = padded width n := List.take_of_length_le (by omega)
  have hDrop : (padded width n ++ rest).drop width = rest := List.drop_left' hLength
  simp only [nanoseconds?, takeWhile_of_ends hDigits hRest, hTake, hLength, ofDigits_padded, hDrop,
    List.isEmpty_eq_false_iff.mpr (padded_ne_nil width n), Bool.false_eq_true, if_false]
  rfl

/-- A fraction is read to the nanosecond. -/
theorem nanoseconds?_fractionText {nanos : Nat} (h : nanos < 1000000000) :
    nanoseconds? (Instant.fractionText nanos ++ ['Z']) = some (nanos, ['Z']) := by
  have hRest : StopsDigits ['Z'] := stopsDigits_cons rfl []
  rw [Instant.fractionText]
  split
  case isTrue hZero =>
    rw [hZero]
    rfl
  split
  case isTrue hMillis =>
    rw [List.cons_append, nanoseconds?_point (by decide) (by decide) (by omega) hRest]
    congr 2
    omega
  split
  case isTrue hMicros =>
    rw [List.cons_append, nanoseconds?_point (by decide) (by decide) (by omega) hRest]
    congr 2
    omega
  case isFalse =>
    rw [List.cons_append, nanoseconds?_point (by decide) (by decide) (by omega) hRest]
    congr 2
    omega

end Time

namespace Instant

open Time

theorem wholeSecond_of_nanos {t : Instant} (h : t.nanos = 0) : t.wholeSecond = t := by
  obtain ⟨date, second, nanos⟩ := t
  obtain rfl : nanos = 0 := h
  rfl

/-- A leap second, if an instant lies in one, ends a minute. -/
def Regular (t : Instant) : Prop := t.nanos.val < 1000000000 ∨ t.second.val % 60 = 59

/-- The written second and fraction give back the second of the day and its nanoseconds. -/
theorem secondOfDay?_written {t : Instant} (h : t.Regular) :
    secondOfDay? (t.second.val / 3600) (t.second.val / 60 % 60) t.writtenSecond
      (t.nanos.val % 1000000000) = some (t.second.val, t.nanos.val) := by
  have hSecond := t.second.isLt
  have hNanos := t.nanos.isLt
  have hWritten : t.writtenSecond ≤ 60 := by
    rw [writtenSecond]
    split <;> omega
  rw [secondOfDay?, if_pos (by omega)]
  rcases h with hWhole | hLeap
  · rw [writtenSecond, if_pos hWhole, if_neg (by omega)]
    congr 2
    · omega
    · omega
  · rw [writtenSecond]
    split
    case isTrue hWhole =>
      rw [if_neg (by omega)]
      congr 2
      · omega
      · omega
    case isFalse =>
      rw [if_pos (by omega)]
      congr 2
      · omega
      · omega

/-- A clock of universal time shows the instant itself. -/
theorem atOffset?_zero (t : Instant) : atOffset? t.date t.second.val t.nanos.val 0 = some t := by
  have hLt := t.second.isLt
  simp only [atOffset?, Option.bind_eq_bind]
  rw [if_neg (by omega), if_neg (by omega), if_pos (by omega), Option.bind_some,
    dif_pos t.nanos.isLt]
  obtain ⟨date, second, nanos⟩ := t
  congr 2
  exact Fin.ext (by simp only; omega)

/-- The parts of an instant, each read where the one before it ends. -/
theorem ofText?_of_parts {text : String} {s₁ s₂ s₃ s₄ : List Char} {year ahead : Int}
    {month day hour minute second nanos secondOfDay nanosInSecond : Nat} {date : Date}
    (hDate : date? text.toList = some ((year, month, day), 'T' :: s₁))
    (hClock : clock? s₁ = some ((hour, minute, second), s₂))
    (hNanos : nanoseconds? s₂ = some (nanos, s₃))
    (hOffset : offset? (trimStart s₃) = some (ahead, s₄))
    (hValid : Date.of? year month day = some date)
    (hSecond : secondOfDay? hour minute second nanos = some (secondOfDay, nanosInSecond))
    (hEnd : (trimStart s₄).isEmpty = true) :
    ofText? text = atOffset? date secondOfDay nanosInSecond ahead := by
  simp only [ofText?, hDate, Option.bind_eq_bind, Option.bind_some, true_or, if_true, hClock,
    hNanos, hOffset, hValid, hSecond, hEnd]

/-- An instant is read as it was written. -/
theorem ofText?_toFraction {t : Instant} (h : t.Regular) : ofText? t.toFraction = some t := by
  have hLt := t.second.isLt
  have hWritten : t.writtenSecond < 100 := by
    rw [writtenSecond]
    split <;> omega
  have hText : t.toFraction.toList = yearText t.date.year ++ '-' :: (padded 2 t.date.month ++
      '-' :: (padded 2 t.date.day ++ 'T' :: (padded 2 (t.second.val / 3600) ++
        ':' :: (padded 2 (t.second.val / 60 % 60) ++ ':' :: (padded 2 t.writtenSecond ++
          (fractionText (t.nanos.val % 1000000000) ++ ['Z'])))))) := by
    simp only [toFraction, clock, String.toList_ofList, List.append_assoc, List.cons_append]
  have hClock := clock?_clock (show t.second.val / 3600 < 100 by omega)
    (show t.second.val / 60 % 60 < 100 by omega) hWritten
    (fractionText (t.nanos.val % 1000000000) ++ ['Z'])
  have hParts := ofText?_of_parts (by rw [hText]; exact date?_date t.date _) hClock
    (nanoseconds?_fractionText (Nat.mod_lt _ (by decide)))
    (show offset? (trimStart ['Z']) = some (0, []) by decide) (dif_pos t.date.valid)
    (secondOfDay?_written h) (by rfl)
  rw [hParts, atOffset?_zero]

/-- An instant at the beginning of a second needs no fraction. -/
theorem toSeconds_eq {t : Instant} (h : t.nanos = 0) : t.toSeconds = t.toFraction := by
  rw [toSeconds, toFraction, h]
  rfl

theorem regular_of_nanos {t : Instant} (h : t.nanos = 0) : t.Regular := by
  refine .inl ?_
  rw [h]
  decide

/-- An instant at the beginning of a second is read as it was written. -/
theorem ofText?_toSeconds {t : Instant} (h : t.nanos = 0) : ofText? t.toSeconds = some t := by
  rw [toSeconds_eq h, ofText?_toFraction (regular_of_nanos h)]

/-! ## What is read -/

/-- Nanoseconds that are read are fewer than a second has. -/
theorem lt_of_nanoseconds? {s rest : List Char} {n : Nat} (h : nanoseconds? s = some (n, rest)) :
    n < 1000000000 := by
  unfold nanoseconds? at h
  split at h
  case h_1 rest =>
    dsimp only at h
    split at h
    case isTrue => cases h
    case isFalse =>
      cases h
      have hDigits : ∀ c ∈ (rest.takeWhile isDigit).take 9, isDigit c = true := fun c hMem =>
        (List.mem_takeWhile_imp (List.mem_of_mem_take hMem))
      have hLength : ((rest.takeWhile isDigit).take 9).length ≤ 9 := List.length_take_le _ _
      generalize (rest.takeWhile isDigit).take 9 = counted at hDigits hLength
      calc ofDigits counted * 10 ^ (9 - counted.length)
          < 10 ^ counted.length * 10 ^ (9 - counted.length) :=
            Nat.mul_lt_mul_of_pos_right (ofDigits_lt hDigits) (Nat.pow_pos (by decide))
        _ = 10 ^ 9 := by rw [← pow_add, Nat.add_sub_cancel' hLength]
  case h_2 =>
    cases h
    decide

theorem regular_of_secondOfDay? {hour minute second nanos secondOfDay nanosInSecond : Nat}
    (hNanos : nanos < 1000000000)
    (h : secondOfDay? hour minute second nanos = some (secondOfDay, nanosInSecond)) :
    nanosInSecond < 1000000000 ∨ secondOfDay % 60 = 59 := by
  rw [secondOfDay?] at h
  split at h
  case isTrue hBounds =>
    split at h
    case isTrue hLeap =>
      cases h
      exact .inr (by omega)
    case isFalse =>
      cases h
      exact .inl hNanos
  case isFalse => cases h

theorem regular_of_atOffset? {date : Date} {second nanos : Nat} {ahead : Int} {t : Instant}
    (h : atOffset? date second nanos ahead = some t)
    (hSecond : nanos < 1000000000 ∨ second % 60 = 59) : t.Regular := by
  have hOfDay : ∀ {day? : Option Date}, (day?.bind fun day =>
      if h : nanos < 2000000000 then
        some (⟨day, ⟨((second - ahead * 60 : Int) % 86400).toNat, by omega⟩, ⟨nanos, h⟩⟩ : Instant)
      else none) = some t → t.Regular := by
    intro day? h
    obtain ⟨day, -, h⟩ := Option.bind_eq_some_iff.mp h
    split at h
    case isTrue =>
      cases h
      exact hSecond.imp id fun hLeap => by simp only; omega
    case isFalse => cases h
  simp only [atOffset?, Option.bind_eq_bind] at h
  split at h
  case isTrue => cases h
  split at h
  case isTrue => exact hOfDay h
  split at h
  case isTrue => exact hOfDay h
  case isFalse => exact hOfDay h

/-- An instant that has been read is regular: clocks differ by whole minutes. -/
theorem regular_of_ofText? {s : String} {t : Instant} (h : ofText? s = some t) : t.Regular := by
  simp only [ofText?, Option.bind_eq_bind, Option.bind_eq_some_iff, Prod.exists] at h
  obtain ⟨year, month, day, s₁, -, h⟩ := h
  split at h
  case h_1 =>
    split at h
    case isTrue =>
      simp only [Option.bind_eq_some_iff, Prod.exists, Option.ite_none_right_eq_some] at h
      obtain ⟨hour, minute, second, s₂, -, nanos, s₃, hNanos, ahead, s₄, -, date, -, secondOfDay,
        nanosInSecond, hSecond, -, hOffset⟩ := h
      exact regular_of_atOffset? hOffset
        (regular_of_secondOfDay? (lt_of_nanoseconds? hNanos) hSecond)
    case isFalse => cases h
  case h_2 => cases h

/-! ## Characters -/

theorem toSeconds_toList {t : Instant} (h : t.nanos = 0) :
    t.toSeconds.toList = yearText t.date.year ++ '-' :: (padded 2 t.date.month ++ '-' ::
      (padded 2 t.date.day ++ 'T' :: (padded 2 (t.second.val / 3600) ++ ':' ::
        (padded 2 (t.second.val / 60 % 60) ++
          ':' :: (padded 2 (t.second.val % 60) ++ ['Z']))))) := by
  have hWritten : t.writtenSecond = t.second.val % 60 := by
    rw [writtenSecond, h]
    rfl
  simp only [toSeconds, clock, String.toList_ofList, hWritten, List.append_assoc, List.cons_append]

/-- The characters of instants in whole seconds. -/
def isTimely (c : Char) : Bool := isDigit c || ['-', '+', 'T', ':', 'Z'].contains c

theorem isTimely_of_mem_toSeconds {t : Instant} (h : t.nanos = 0) {c : Char}
    (hMem : c ∈ t.toSeconds.toList) : isTimely c = true := by
  have hPadded : ∀ {width n : Nat}, c ∈ padded width n → isTimely c = true := fun hMem => by
    rw [isTimely, isDigit_of_mem_padded hMem, Bool.true_or]
  have hYear : c ∈ yearText t.date.year → isTimely c = true := fun hMem => by
    rw [yearText] at hMem
    split at hMem
    · exact hPadded hMem
    rcases List.mem_cons.mp hMem with rfl | hMem
    · split <;> rfl
    · exact hPadded hMem
  rw [toSeconds_toList h] at hMem
  simp only [List.mem_append, List.mem_cons, List.not_mem_nil, or_false] at hMem
  rcases hMem with h | rfl | h | rfl | h | rfl | h | rfl | h | rfl | h | rfl
  all_goals first | rfl | exact hYear h | exact hPadded h

end Instant

end TripPlanner
