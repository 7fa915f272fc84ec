import TripPlanner.Interval
import TripPlanner.Proofs.Text.Numerals
import TripPlanner.Proofs.Text.Trimming

/-!
# Intervals read back

An interval is written in words, each of them an amount of a unit, and nothing is left over: the
amounts add up to the interval (`Interval.adds_amounts`). The reader adds them up again one by one,
and no sum on the way is too large where the last one is not (`Interval.Adds.sum?_intercalate`). So
every interval is read from its own text, also one of fractions of a second or of the greatest
length (`Interval.ofText?_text`).
-/

namespace TripPlanner.Interval

open Text

/-! ## Characters -/

theorem toNat_of_isUnitLetter {c : Char} (h : isUnitLetter c = true) :
    97 ≤ c.toNat ∧ c.toNat ≤ 122 ∨ 65 ≤ c.toNat ∧ c.toNat ≤ 90 ∨ c.toNat = 181 := by
  simp only [isUnitLetter, Bool.or_eq_true, Bool.and_eq_true, decide_eq_true_eq,
    beq_iff_eq] at h
  rcases h with (h | h) | rfl
  · exact .inl h
  · exact .inr (.inl h)
  · exact .inr (.inr rfl)

theorem isDigit_of_isUnitLetter {c : Char} (h : isUnitLetter c = true) : isDigit c = false := by
  have hLetter := toNat_of_isUnitLetter h
  refine Bool.eq_false_iff.mpr fun hDigit => ?_
  have hBounds := isDigit_iff.mp hDigit
  omega

theorem isBlank_of_isUnitLetter {c : Char} (h : isUnitLetter c = true) : isBlank c = false := by
  have hLetter := toNat_of_isUnitLetter h
  refine Bool.eq_false_iff.mpr fun hBlank => ?_
  simp only [isBlank, Bool.or_eq_true, Bool.and_eq_true, decide_eq_true_eq, beq_iff_eq] at hBlank
  omega

/-! ## Amounts -/

/-- So many of a unit in nanoseconds. -/
def TimeUnit.nanos (u : TimeUnit) (n : Nat) : Nat :=
  if u.inSeconds then n * u.whole * secondTicks else n * u.whole

/-- A name by which a unit is written. -/
structure Names (name : List Char) (u : TimeUnit) : Prop where
  unit : unit? name = some u
  all_letters : name.all isUnitLetter = true
  whole_pos : 0 < u.whole

variable {name rest : List Char} {u : TimeUnit} {n total : Nat}

theorem Names.letters (h : Names name u) : ∀ c ∈ name, isUnitLetter c = true :=
  List.all_eq_true.mp h.all_letters

theorem Names.exists_cons (h : Names name u) :
    ∃ c more, name = c :: more ∧ isUnitLetter c = true := by
  cases name with
  | nil => cases h.unit
  | cons c more => exact ⟨c, more, rfl, h.letters c List.mem_cons_self⟩

theorem fitting_eq_some (h : n < Word.values 64) : fitting n = some n := if_pos h

/-- Digits are taken together up to the name of a unit. -/
theorem number?_append {ds : List Char} (hDigits : ∀ c ∈ ds, isDigit c = true) {c : Char}
    (hLetter : isUnitLetter c = true)
    (hFits : ds.foldl (fun n c => n * 10 + digitValue c) n < Word.values 64) :
    number? n (ds ++ c :: rest) =
      some (ds.foldl (fun n c => n * 10 + digitValue c) n, none, c :: rest) := by
  induction ds generalizing n with
  | nil =>
    simp only [List.nil_append, number?, isDigit_of_isUnitLetter hLetter,
      isBlank_of_isUnitLetter hLetter, hLetter, Bool.false_eq_true, if_false, if_true,
      List.foldl_nil]
  | cons d ds ih =>
    obtain ⟨hFirst, hRest⟩ := List.forall_mem_cons.mp hDigits
    rw [List.foldl_cons] at hFits ⊢
    have hNext : n * 10 + digitValue d < Word.values 64 := by
      rw [foldl_digits] at hFits
      have hScaled := Nat.le_mul_of_pos_right (n * 10 + digitValue d)
        (Nat.pow_pos (show 0 < 10 by decide) : 0 < 10 ^ ds.length)
      omega
    rw [List.cons_append, number?, if_pos hFirst, fitting_eq_some hNext, Option.bind_some,
      ih hRest hFits]

/-- What fits an interval fits the words that it is counted in. -/
theorem mul_whole_lt (hShort : u.inSeconds = false → n * u.whole < secondTicks)
    (hFits : u.nanos n < secondsEnd * secondTicks) : n * u.whole < Word.values 64 := by
  rw [TimeUnit.nanos] at hFits
  cases hUnit : u.inSeconds with
  | true =>
    rw [hUnit, if_pos rfl] at hFits
    exact Nat.lt_of_mul_lt_mul_right hFits
  | false => exact (hShort hUnit).trans (show secondTicks < Word.values 64 by decide)

/-- An amount is added where the sum is not too large. -/
theorem add?_nanos (hShort : u.inSeconds = false → n * u.whole < secondTicks)
    (hFits : total + u.nanos n < secondsEnd * secondTicks) :
    add? total u.inSeconds (n * u.whole) = some (total + u.nanos n) := by
  have hSmall := mul_whole_lt hShort ((Nat.le_add_left _ total).trans_lt hFits)
  rw [add?, fitting_eq_some hSmall, Option.bind_eq_bind, Option.bind_some]
  rw [TimeUnit.nanos] at hFits ⊢
  cases hUnit : u.inSeconds with
  | true =>
    rw [hUnit, if_pos rfl] at hFits
    rw [if_pos rfl, if_pos rfl, if_pos hFits]
  | false =>
    rw [hUnit, if_neg Bool.false_ne_true] at hFits
    -- What is left over of a second and what is added to it are both less than a second.
    have hSum : total % secondTicks + n * u.whole < Word.values 64 :=
      calc total % secondTicks + n * u.whole
          < secondTicks + secondTicks :=
            Nat.add_lt_add (Nat.mod_lt total (by decide)) (hShort hUnit)
        _ < Word.values 64 := by decide
    rw [if_neg Bool.false_ne_true, if_neg Bool.false_ne_true, fitting_eq_some hSum,
      Option.bind_some, if_pos hFits]

/-- A blank before an amount does not matter. -/
theorem sum?_blank (fuel total : Nat) (s : List Char) :
    sum? fuel total (' ' :: s) = sum? fuel total s := by
  have hTrim : trimStart (' ' :: s) = trimStart s := rfl
  unfold sum?
  rw [hTrim]

/-- An amount is read up to what is no letter. -/
theorem sum?_amount (hName : Names name u)
    (hShort : u.inSeconds = false → n * u.whole < secondTicks)
    (hFits : total + u.nanos n < secondsEnd * secondTicks)
    (hRest : ∀ c ∈ rest.head?, isUnitLetter c = false) (fuel : Nat) :
    sum? (fuel + 1) total (digits n ++ (name ++ rest)) = sum? fuel (total + u.nanos n) rest := by
  obtain ⟨d, ds, hDigits⟩ := List.exists_cons_of_ne_nil (digits_ne_nil n)
  obtain ⟨c, more, hLetters, hLetter⟩ := hName.exists_cons
  have hAll : ∀ c ∈ d :: ds, isDigit c = true := fun _ hMem =>
    isDigit_of_mem_digits (hDigits ▸ hMem)
  obtain ⟨hFirst, hMore⟩ := List.forall_mem_cons.mp hAll
  have hValue : ds.foldl (fun n c => n * 10 + digitValue c) (digitValue d) = n := by
    have hOfDigits := ofDigits_digits n
    rwa [hDigits, ofDigits, List.foldl_cons, Nat.zero_mul, Nat.zero_add] at hOfDigits
  have hSmall : n < Word.values 64 :=
    (Nat.le_mul_of_pos_right n hName.whole_pos).trans_lt
      (mul_whole_lt hShort ((Nat.le_add_left _ total).trans_lt hFits))
  have hNumber : number? (digitValue d) (ds ++ (name ++ rest)) = some (n, none, name ++ rest) := by
    rw [hLetters, List.cons_append, number?_append hMore hLetter (hValue.symm ▸ hSmall), hValue]
  have hTrim : trimStart (d :: (ds ++ (name ++ rest))) = d :: (ds ++ (name ++ rest)) :=
    trimStart_cons (isBlank_of_isDigit hFirst) _
  rw [hDigits, List.cons_append]
  conv_lhs => unfold sum?
  simp only [hTrim, hFirst, if_true, hNumber, Option.bind_eq_bind, Option.bind_some,
    takeWhile_of_ends hName.letters hRest, dropWhile_of_ends hName.letters hRest, hName.unit,
    add?_nanos hShort hFits, addFraction?]

/-! ## Sums of amounts -/

/-- Words that write amounts of units, and the nanoseconds that these add up to. Amounts that are
counted in nanoseconds stay below a second. -/
inductive Adds : List (List Char) → Nat → Prop
  | nil : Adds [] 0
  | cons {name : List Char} {u : TimeUnit} {n sum : Nat} {words : List (List Char)}
      (name_names : Names name u) (short : u.inSeconds = false → n * u.whole < secondTicks)
      (rest : Adds words sum) : Adds ((digits n ++ name) :: words) (u.nanos n + sum)

namespace Adds

variable {words others : List (List Char)} {sum more : Nat}

theorem singleton (hName : Names name u)
    (hShort : u.inSeconds = false → n * u.whole < secondTicks) :
    Adds [digits n ++ name] (u.nanos n) := .cons hName hShort .nil

theorem append (h : Adds words sum) (hOthers : Adds others more) :
    Adds (words ++ others) (sum + more) := by
  induction h with
  | nil => rwa [List.nil_append, Nat.zero_add]
  | cons hName hShort _ ih =>
    rw [List.cons_append, Nat.add_assoc]
    exact .cons hName hShort ih

/-- Words are read as their sum, added to what was read before. -/
theorem sum?_intercalate (h : Adds words sum) {fuel : Nat} (hFuel : words.length ≤ fuel)
    (hFits : total + sum < secondsEnd * secondTicks) :
    sum? fuel total ([' '].intercalate words) = some (total + sum) := by
  induction h generalizing fuel total with
  | nil =>
    unfold sum?
    rfl
  | @cons name u n sum words hName hShort hWords ih =>
    rw [List.length_cons] at hFuel
    obtain ⟨less, rfl⟩ := Nat.exists_eq_succ_of_ne_zero (show fuel ≠ 0 by omega)
    have hFuel : words.length ≤ less := Nat.le_of_succ_le_succ hFuel
    rw [← Nat.add_assoc] at hFits ⊢
    have hFirst : total + u.nanos n < secondsEnd * secondTicks :=
      (Nat.le_add_right _ _).trans_lt hFits
    rw [← ih hFuel hFits]
    cases words with
    | nil =>
      rw [List.intercalate_singleton, ← List.append_nil name,
        sum?_amount hName hShort hFirst (by simp)]
      rfl
    | cons word words =>
      rw [List.intercalate_cons_cons, List.append_assoc, List.append_assoc, List.singleton_append,
        sum?_amount hName hShort hFirst (by rintro c ⟨⟩; decide), sum?_blank]

/-- Words begin with a digit and end with a letter, and are no more than their characters. -/
theorem ends (h : Adds words sum) (hNe : words ≠ []) :
    (∃ c rest, [' '].intercalate words = c :: rest ∧ isDigit c = true) ∧
      (∃ c, ([' '].intercalate words).getLast? = some c ∧ isUnitLetter c = true) ∧
      words.length ≤ ([' '].intercalate words).length := by
  induction h with
  | nil => exact absurd rfl hNe
  | @cons name u n sum words hName _ _ ih =>
    obtain ⟨d, ds, hDigits⟩ := List.exists_cons_of_ne_nil (digits_ne_nil n)
    have hFirst : isDigit d = true := isDigit_of_mem_digits (hDigits ▸ List.mem_cons_self)
    have hNonempty : name ≠ [] := by
      obtain ⟨c, more, hLetters, -⟩ := hName.exists_cons
      rw [hLetters]
      exact List.cons_ne_nil c more
    rw [hDigits, List.cons_append]
    cases words with
    | nil =>
      rw [List.intercalate_singleton]
      refine ⟨⟨d, _, rfl, hFirst⟩, ⟨name.getLast hNonempty, ?_,
        hName.letters _ (List.getLast_mem hNonempty)⟩, Nat.succ_le_succ (Nat.zero_le _)⟩
      rw [← List.cons_append, List.getLast?_append, List.getLast?_eq_some_getLast hNonempty]
      rfl
    | cons word words =>
      obtain ⟨-, ⟨c, hLast, hLetter⟩, hLength⟩ := ih (List.cons_ne_nil _ _)
      rw [List.intercalate_cons_cons]
      refine ⟨⟨d, _, rfl, hFirst⟩, ⟨c, ?_, hLetter⟩, ?_⟩
      · rw [List.getLast?_append, hLast]
        rfl
      · simp only [List.length_append, List.length_cons] at hLength ⊢
        omega

end Adds

/-! ## Intervals -/

/-- An amount of a unit that is left out where it is zero. -/
theorem adds_amount {unit : String} (hName : Names unit.toList u)
    (hShort : u.inSeconds = false → n * u.whole < secondTicks) :
    Adds (amount unit n) (u.nanos n) := by
  rw [amount]
  split
  case isTrue hZero =>
    have hNothing : u.nanos n = 0 := by simp [TimeUnit.nanos, hZero]
    rw [hNothing]
    exact .nil
  case isFalse => exact .singleton hName hShort

/-- The same of a unit whose name is a word in the singular or the plural. -/
theorem adds_counted {unit : String} (hOne : Names unit.toList u)
    (hMany : Names (unit ++ "s").toList u)
    (hShort : u.inSeconds = false → n * u.whole < secondTicks) :
    Adds (counted unit n) (u.nanos n) := by
  rw [counted]
  split
  case isTrue => exact adds_amount hOne hShort
  case isFalse => exact adds_amount hMany hShort

/-- Seconds are written in amounts of years, months, days, hours, minutes and seconds. -/
theorem adds_seconds (seconds : Nat) :
    Adds (counted "year" (seconds / 31557600) ++ counted "month" (seconds % 31557600 / 2630016) ++
        counted "day" (seconds % 31557600 % 2630016 / 86400) ++
        amount "h" (seconds % 31557600 % 2630016 % 86400 / 3600) ++
        amount "m" (seconds % 31557600 % 2630016 % 86400 % 3600 / 60) ++
        amount "s" (seconds % 31557600 % 2630016 % 86400 % 60))
      (seconds * secondTicks) := by
  have hYears (n : Nat) : Adds (counted "year" n) (n * 31557600 * secondTicks) :=
    adds_counted (u := ⟨31557600, true, some 31557600, true⟩) ⟨rfl, rfl, Nat.succ_pos _⟩
      ⟨rfl, rfl, Nat.succ_pos _⟩ nofun
  have hMonths (n : Nat) : Adds (counted "month" n) (n * 2630016 * secondTicks) :=
    adds_counted (u := ⟨2630016, true, some 2630016, true⟩) ⟨rfl, rfl, Nat.succ_pos _⟩
      ⟨rfl, rfl, Nat.succ_pos _⟩ nofun
  have hDays (n : Nat) : Adds (counted "day" n) (n * 86400 * secondTicks) :=
    adds_counted (u := ⟨86400, true, some 86400, true⟩) ⟨rfl, rfl, Nat.succ_pos _⟩
      ⟨rfl, rfl, Nat.succ_pos _⟩ nofun
  have hHours (n : Nat) : Adds (amount "h" n) (n * 3600 * secondTicks) :=
    adds_amount (u := ⟨3600, true, some 3600, true⟩) ⟨rfl, rfl, Nat.succ_pos _⟩ nofun
  have hMinutes (n : Nat) : Adds (amount "m" n) (n * 60 * secondTicks) :=
    adds_amount (u := ⟨60, true, some 60000000000, false⟩) ⟨rfl, rfl, Nat.succ_pos _⟩ nofun
  have hSeconds (n : Nat) : Adds (amount "s" n) (n * 1 * secondTicks) :=
    adds_amount (u := ⟨1, true, some 1000000000, false⟩) ⟨rfl, rfl, Nat.succ_pos _⟩ nofun
  have hAll := (((((hYears (seconds / 31557600)).append
    (hMonths (seconds % 31557600 / 2630016))).append
    (hDays (seconds % 31557600 % 2630016 / 86400))).append
    (hHours (seconds % 31557600 % 2630016 % 86400 / 3600))).append
    (hMinutes (seconds % 31557600 % 2630016 % 86400 % 3600 / 60))).append
    (hSeconds (seconds % 31557600 % 2630016 % 86400 % 60))
  convert hAll using 1
  rw [secondTicks]
  omega

/-- What is less than a second is written in amounts of the units that are shorter. -/
theorem adds_nanos {nanos : Nat} (h : nanos < secondTicks) :
    Adds (amount "ms" (nanos / 1000000) ++ amount "us" (nanos / 1000 % 1000) ++
      amount "ns" (nanos % 1000)) nanos := by
  have hTicks : secondTicks = 1000000000 := rfl
  have hMillis : Adds (amount "ms" (nanos / 1000000)) (nanos / 1000000 * 1000000) :=
    adds_amount (u := ⟨1000000, false, some 1000000, false⟩) ⟨rfl, rfl, Nat.succ_pos _⟩
      fun _ => (Nat.div_mul_le_self nanos 1000000).trans_lt h
  have hMicros : Adds (amount "us" (nanos / 1000 % 1000)) (nanos / 1000 % 1000 * 1000) :=
    adds_amount (u := ⟨1000, false, some 1000, false⟩) ⟨rfl, rfl, Nat.succ_pos _⟩
      fun _ => show nanos / 1000 % 1000 * 1000 < secondTicks by omega
  have hNanos : Adds (amount "ns" (nanos % 1000)) (nanos % 1000 * 1) :=
    adds_amount (u := ⟨1, false, none, false⟩) ⟨rfl, rfl, Nat.succ_pos _⟩
      fun _ => show nanos % 1000 * 1 < secondTicks by omega
  convert (hMillis.append hMicros).append hNanos using 1
  omega

/-- The amounts of an interval add up to it. -/
theorem adds_amounts (i : Interval) : Adds i.amounts i.nanos.val := by
  have hLeft : i.nanos.val % secondTicks < secondTicks := Nat.mod_lt _ (by decide)
  have hAll := (adds_seconds (i.nanos.val / secondTicks)).append (adds_nanos hLeft)
  rw [Nat.div_add_mod', ← List.append_assoc, ← List.append_assoc] at hAll
  exact hAll

/-- The text of an interval is made of words that add up to it. -/
theorem exists_adds (i : Interval) : ∃ words, words ≠ [] ∧ Adds words i.nanos.val ∧
    i.text.toList = [' '].intercalate words := by
  rw [text]
  split
  case isTrue hZero =>
    have hNothing : Adds [digits 0 ++ "s".toList] 0 :=
      .singleton (u := ⟨1, true, some 1000000000, false⟩) ⟨rfl, rfl, Nat.succ_pos _⟩ nofun
    refine ⟨[digits 0 ++ "s".toList], List.cons_ne_nil _ _, ?_, rfl⟩
    rw [hZero]
    exact hNothing
  case isFalse hNonzero =>
    have hAdds := adds_amounts i
    refine ⟨i.amounts, fun hNil => ?_, hAdds, String.toList_ofList⟩
    rw [hNil] at hAdds
    generalize i.nanos.val = n at hAdds hNonzero
    cases hAdds
    exact hNonzero rfl

/-- The text of an interval has no white space at its ends. -/
theorem trim_text (i : Interval) : trim i.text.toList = i.text.toList := by
  obtain ⟨words, hNe, hAdds, hText⟩ := exists_adds i
  obtain ⟨⟨c, rest, hFirst, hDigit⟩, ⟨d, hLast, hLetter⟩, -⟩ := hAdds.ends hNe
  rw [hText]
  refine trim_of_ends ?_ ?_
  · rw [hFirst]
    rintro _ ⟨⟩
    exact isBlank_of_isDigit hDigit
  · rw [hLast]
    rintro _ ⟨⟩
    exact isBlank_of_isUnitLetter hLetter

/-- **An interval is read from its own text.** -/
theorem ofText?_text (i : Interval) : ofText? i.text.toList = some i := by
  obtain ⟨words, hNe, hAdds, hText⟩ := exists_adds i
  obtain ⟨⟨c, rest, hFirst, hDigit⟩, ⟨d, hLast, hLetter⟩, hLength⟩ := hAdds.ends hNe
  have hSum : sum? ([' '].intercalate words).length 0 ([' '].intercalate words) =
      some i.nanos.val := by
    rw [hAdds.sum?_intercalate hLength (by rw [Nat.zero_add]; exact i.nanos.isLt), Nat.zero_add]
  have hNotZero : [' '].intercalate words ≠ ['0'] := by
    intro hZero
    rw [hZero] at hLast
    cases hLast
    cases hLetter
  have hNotEmpty : (trimStart ([' '].intercalate words)).isEmpty = false := by
    rw [hFirst, trimStart_cons (isBlank_of_isDigit hDigit)]
    rfl
  rw [hText, ofText?, if_neg hNotZero, hNotEmpty, if_neg Bool.false_ne_true, hSum]
  exact dif_pos i.nanos.isLt

/-- An hour and a half and a thousandth of a second. -/
example : (⟨5400001000000, by decide⟩ : Interval).text = "1h 30m 1ms" := by decide

end TripPlanner.Interval
