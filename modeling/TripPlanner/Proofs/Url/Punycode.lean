import TripPlanner.Url.Punycode
import Mathlib.Data.List.Basic
import Mathlib.Tactic.Ring

/-!
# Punycode reads back

A numeral is read as it was written (`number?_numeral`), so each numeral that is written when the
place of a character is passed makes a reader insert that character there. What a reader has
inserted by then are the characters of smaller codes and those of the same code that have been
passed (`Synced`). Passing a character keeps this (`synced_pass`), and so does a round
(`synced_round`), so in the end the reader has the label (`decode?_encode`).
-/

namespace TripPlanner.Url.Punycode

/-! ## Numerals -/

theorem digitValue?_digit {n : Nat} (h : n < 36) : digitValue? (digit n) = some n := by
  have hAll : ∀ n : Fin 36, digitValue? (digit n) = some n.val := by decide
  exact hAll ⟨n, h⟩

theorem numeral_ne_nil (bias place n : Nat) : numeral bias place n ≠ [] := by
  rw [numeral]
  split <;> simp

/-- The characters of numerals are digits. -/
theorem exists_digit_of_mem_numeral {bias place n : Nat} {c : Char}
    (h : c ∈ numeral bias place n) : ∃ d < 36, c = digit d := by
  have hLow := one_le_threshold place bias
  have hHigh := threshold_le place bias
  induction place, n using numeral.induct bias with
  | case1 place n t hLt =>
    rw [numeral, if_pos hLt] at h
    exact ⟨n, by omega, List.mem_singleton.mp h⟩
  | case2 place n t hLt ih =>
    rw [numeral, if_neg hLt] at h
    rcases List.mem_cons.mp h with rfl | hMem
    · have hMod : (n - t) % (36 - t) < 36 - t := Nat.mod_lt _ (by omega)
      exact ⟨t + (n - t) % (36 - t), by omega, rfl⟩
    · exact ih hMem (one_le_threshold _ _) (threshold_le _ _)

/-- A numeral is read as it was written, whatever follows it. -/
theorem number?_numeral (bias place n weight value : Nat) (rest : List Char) :
    number? bias place weight value (numeral bias place n ++ rest) =
      some (value + n * weight, rest) := by
  induction place, n using numeral.induct bias generalizing weight value with
  | case1 place n t hLt =>
    have hHigh : t ≤ 26 := threshold_le place bias
    rw [numeral, if_pos hLt, List.singleton_append, number?, digitValue?_digit (by omega)]
    exact if_pos hLt
  | case2 place n t hLt ih =>
    have hHigh : t ≤ 26 := threshold_le place bias
    have hMod : (n - t) % (36 - t) < 36 - t := Nat.mod_lt _ (by omega)
    have hParts : t + (n - t) % (36 - t) + (n - t) / (36 - t) * (36 - t) = n := by
      have hDivision := Nat.mod_add_div' (n - t) (36 - t)
      omega
    have hBase : t + (n - t) % (36 - t) < 36 := by omega
    have hDigit : ¬ t + (n - t) % (36 - t) < t := by omega
    rw [numeral, if_neg hLt, List.cons_append, number?, digitValue?_digit hBase]
    refine (if_neg hDigit).trans ((ih _ _).trans ?_)
    rw [Nat.add_assoc, ← Nat.mul_assoc, Nat.mul_right_comm _ weight, ← Nat.add_mul, hParts]

/-! ## Insertions -/

/-- What is known while a label is read. -/
structure Cursor where
  bias : Nat
  /-- The code of the last character that was inserted, and the place after it. -/
  code : Nat
  place : Nat
  isFirst : Bool
  label : List Char

/-- The label that is read from here on. -/
def Cursor.read? (k : Cursor) (fuel : Nat) (s : List Char) : Option (List Char) :=
  insertions? fuel k.bias k.code k.place k.isFirst k.label s

/-- The cursor after one more character has been inserted, `delta` steps on. -/
def Cursor.insert (k : Cursor) (delta : Nat) (c : Char) (before : Nat) : Cursor where
  bias := adapt delta (k.label.length + 1) k.isFirst
  code := c.toNat
  place := before + 1
  isFirst := false
  label := k.label.take before ++ c :: k.label.drop before

/-- A numeral makes the character be inserted that it leads to. -/
theorem read?_numeral {k : Cursor} {delta before : Nat} {c : Char}
    (hBefore : before ≤ k.label.length)
    (hSteps : k.code * (k.label.length + 1) + k.place + delta =
      c.toNat * (k.label.length + 1) + before) (fuel : Nat) (rest : List Char) :
    k.read? (fuel + 1) (numeral k.bias 36 delta ++ rest) =
      (k.insert delta c before).read? fuel rest := by
  -- Both sides are divided by the number of places.
  have hPlace : k.place + delta + (k.label.length + 1) * k.code =
      before + (k.label.length + 1) * c.toNat := by
    rw [Nat.mul_comm _ k.code, Nat.mul_comm _ c.toNat]
    omega
  have hLt : before < k.label.length + 1 := by omega
  have hMod : (k.place + delta) % (k.label.length + 1) = before := by
    rw [← Nat.add_mul_mod_self_left _ _ k.code, hPlace, Nat.add_mul_mod_self_left,
      Nat.mod_eq_of_lt hLt]
  have hDiv : k.code + (k.place + delta) / (k.label.length + 1) = c.toNat := by
    rw [Nat.add_comm, ← Nat.add_mul_div_left _ _ (Nat.succ_pos _), hPlace,
      Nat.add_mul_div_left _ _ (Nat.succ_pos _), Nat.div_eq_of_lt hLt, Nat.zero_add]
  have hNumber : number? k.bias 36 1 0 (numeral k.bias 36 delta ++ rest) = some (delta, rest) := by
    rw [number?_numeral, Nat.zero_add, Nat.mul_one]
  obtain ⟨d, ds, hCons⟩ := List.exists_cons_of_ne_nil (numeral_ne_nil k.bias 36 delta)
  rw [hCons, List.cons_append] at hNumber ⊢
  simp only [Cursor.read?, insertions?, hNumber, Option.bind_eq_bind, Option.bind_some, hMod, hDiv,
    Char.ofNat_toNat]
  exact if_pos c.valid

/-! ## Reading beside writing -/

/-- In the round of `code`, when the places `before` have been passed and the places `after` have
not, a cursor that has read what has been written stands where the writer does. -/
structure Synced (basic start : List Char) (code : Nat) (before after : List Char) (p : Progress)
    (k : Cursor) : Prop where
  bias : k.bias = p.bias
  isFirst : k.isFirst = p.isFirst
  count : k.label.length = p.count
  label : k.label = before.filter (·.toNat ≤ code) ++ after.filter (·.toNat < code)
  steps : k.code * (p.count + 1) + k.place + p.delta =
    code * (p.count + 1) + (before.filter (·.toNat ≤ code)).length
  reads : ∃ numerals, p.text = start ++ numerals ∧
    (∀ c ∈ numerals, ∃ d < 36, c = digit d) ∧
    ∀ fuel rest, (numerals ++ rest).length ≤ fuel → ∃ fuel', rest.length ≤ fuel' ∧
      insertions? fuel 72 0x80 0 true basic (numerals ++ rest) = k.read? fuel' rest

variable {basic start before after label : List Char} {code next : Nat} {p : Progress} {k : Cursor}

/-- Passing the place of a character. -/
theorem synced_pass {c : Char} (h : Synced basic start code before (c :: after) p k) :
    ∃ k', Synced basic start code (before ++ [c]) after (p.pass code c) k' := by
  have hLabel := h.label
  have hSteps := h.steps
  rcases Nat.lt_trichotomy c.toNat code with hLt | rfl | hGt
  · refine ⟨k, ?_⟩
    rw [Progress.pass, if_pos hLt]
    refine ⟨h.bias, h.isFirst, h.count, ?_, ?_, h.reads⟩
    · rw [hLabel, List.filter_append, List.filter_cons_of_pos (by simpa using hLt),
        List.filter_cons_of_pos (by simpa using hLt.le), List.filter_nil, List.append_assoc,
        List.singleton_append]
    · rw [List.filter_append, List.length_append, List.filter_cons_of_pos (by simpa using hLt.le),
        List.filter_nil, List.length_singleton]
      simp only
      omega
  · rw [List.filter_cons_of_neg (by simp)] at hLabel
    have hTake : k.label.take (before.filter (·.toNat ≤ c.toNat)).length =
        before.filter (·.toNat ≤ c.toNat) := by rw [hLabel, List.take_left]
    have hDrop : k.label.drop (before.filter (·.toNat ≤ c.toNat)).length =
        after.filter (·.toNat < c.toNat) := by rw [hLabel, List.drop_left]
    have hFilter : (before ++ [c]).filter (·.toNat ≤ c.toNat) =
        before.filter (·.toNat ≤ c.toNat) ++ [c] := by
      rw [List.filter_append, List.filter_cons_of_pos (by simp), List.filter_nil]
    have hBefore : (before.filter (·.toNat ≤ c.toNat)).length ≤ k.label.length := by
      rw [hLabel, List.length_append]
      exact Nat.le_add_right _ _
    refine ⟨k.insert p.delta c (before.filter (·.toNat ≤ c.toNat)).length, ?_⟩
    rw [Progress.pass, if_neg (Nat.lt_irrefl _), if_pos rfl]
    refine ⟨?_, rfl, ?_, ?_, ?_, ?_⟩
    · simp only [Cursor.insert, h.count, h.isFirst]
    · simp only [Cursor.insert, List.length_append, List.length_cons, List.length_take,
        List.length_drop, ← h.count]
      omega
    · simp only [Cursor.insert, hTake, hDrop, hFilter, List.append_assoc, List.singleton_append]
    · simp only [Cursor.insert, hFilter, List.length_append, List.length_singleton, Nat.add_zero]
    · obtain ⟨numerals, hText, hDigits, hReads⟩ := h.reads
      refine ⟨numerals ++ numeral p.bias 36 p.delta, ?_, ?_, ?_⟩
      · simp only [hText, List.append_assoc]
      · intro d hMem
        rcases List.mem_append.mp hMem with hOld | hNew
        · exact hDigits d hOld
        · exact exists_digit_of_mem_numeral hNew
      · intro fuel rest hFuel
        rw [List.append_assoc] at hFuel ⊢
        obtain ⟨fuel', hFuel', hRead⟩ := hReads fuel _ hFuel
        have hPositive := List.length_pos_iff.mpr (numeral_ne_nil p.bias 36 p.delta)
        rw [List.length_append] at hFuel'
        obtain ⟨fuel'', rfl⟩ := Nat.exists_eq_add_of_lt (Nat.lt_of_lt_of_le hPositive
          (Nat.le_of_add_right_le hFuel'))
        rw [Nat.zero_add] at hRead hFuel'
        refine ⟨fuel'', by omega, ?_⟩
        rw [hRead, ← h.bias, read?_numeral hBefore]
        rw [h.count]
        exact hSteps
  · refine ⟨k, ?_⟩
    rw [Progress.pass, if_neg (Nat.lt_asymm hGt), if_neg (Nat.ne_of_gt hGt)]
    refine ⟨h.bias, h.isFirst, h.count, ?_, ?_, h.reads⟩
    · rw [hLabel, List.filter_append, List.filter_cons_of_neg (by simpa using hGt.le),
        List.filter_cons_of_neg (by simpa using hGt), List.filter_nil, List.append_nil]
    · rw [List.filter_append, List.filter_cons_of_neg (by simpa using hGt), List.filter_nil,
        List.append_nil]
      exact hSteps

theorem synced_passes (h : Synced basic start code before after p k) :
    ∃ k', Synced basic start code (before ++ after) [] (after.foldl (Progress.pass code) p) k' := by
  induction after generalizing before p k with
  | nil =>
    rw [List.append_nil]
    exact ⟨k, h⟩
  | cons c after ih =>
    obtain ⟨k', h'⟩ := synced_pass h
    obtain ⟨k'', h''⟩ := ih h'
    rw [List.append_assoc] at h''
    exact ⟨k'', h''⟩

/-! ## Rounds -/

/-- A round begins. -/
def Progress.begin (p : Progress) (code next : Nat) : Progress :=
  { p with delta := p.delta + (code - next) * (p.count + 1) }

/-- A round ends. -/
def Progress.close (p : Progress) : Progress := { p with delta := p.delta + 1 }

theorem rounds_cons (label : List Char) (next : Nat) (p : Progress) (code : Nat)
    (codes : List Nat) :
    rounds label next p (code :: codes) =
      rounds label (code + 1) (label.foldl (Progress.pass code) (p.begin code next)).close codes :=
  rfl

/-- A round of the smallest code that has not had one. -/
theorem synced_round (h : Synced basic start next [] label p k) (hNext : next ≤ code)
    (hNone : ∀ c ∈ label, c.toNat < code → c.toNat < next) :
    ∃ k', Synced basic start (code + 1) [] label
      (label.foldl (Progress.pass code) (p.begin code next)).close k' := by
  have hBegin : Synced basic start code [] label (p.begin code next) k := by
    refine ⟨h.bias, h.isFirst, h.count, ?_, ?_, h.reads⟩
    · rw [h.label]
      refine congrArg _ (List.filter_congr fun c hMem => ?_)
      have hLess := hNone c hMem
      exact decide_eq_decide.mpr ⟨fun hLt => hLt.trans_le hNext, hLess⟩
    · have hSteps := h.steps
      have hCodes : code * (p.count + 1) =
          next * (p.count + 1) + (code - next) * (p.count + 1) := by
        rw [← Nat.add_mul, Nat.add_sub_cancel' hNext]
      simp only [Progress.begin, List.filter_nil, List.length_nil] at hSteps ⊢
      omega
  obtain ⟨k', h'⟩ := synced_passes hBegin
  rw [List.nil_append] at h'
  have hLabel := h'.label
  rw [List.filter_nil, List.append_nil] at hLabel
  refine ⟨k', h'.bias, h'.isFirst, h'.count, ?_, ?_, h'.reads⟩
  · rw [hLabel, List.filter_nil, List.nil_append]
    exact List.filter_congr fun c _ => decide_eq_decide.mpr Nat.lt_succ_iff.symm
  · have hSteps := h'.steps
    rw [← hLabel, h'.count] at hSteps
    simp only [Progress.close, List.filter_nil, List.length_nil, Nat.succ_mul]
    omega

/-- The rounds of all codes that have not had one. -/
theorem synced_rounds {codes : List Nat} (h : Synced basic start next [] label p k)
    (hSorted : codes.Pairwise (· < ·)) (hNext : ∀ code ∈ codes, next ≤ code)
    (hCodes : ∀ c ∈ label, next ≤ c.toNat → c.toNat ∈ codes) :
    ∃ numerals, rounds label next p codes = start ++ numerals ∧
      (∀ c ∈ numerals, ∃ d < 36, c = digit d) ∧
      ∀ fuel, numerals.length ≤ fuel →
        insertions? fuel 72 0x80 0 true basic numerals = some label := by
  -- Each round writes the insertions of one code; what it leaves is synced for the next code.
  induction codes generalizing next p k with
  | nil =>
    obtain ⟨numerals, hText, hDigits, hReads⟩ := h.reads
    refine ⟨numerals, hText, hDigits, fun fuel hFuel => ?_⟩
    have hLabel := h.label
    rw [List.filter_nil, List.nil_append, List.filter_eq_self.mpr] at hLabel
    · obtain ⟨fuel', -, hRead⟩ := hReads fuel [] (by rwa [List.append_nil])
      rw [List.append_nil] at hRead
      rw [hRead, Cursor.read?, insertions?, hLabel]
    · intro c hMem
      refine decide_eq_true (Nat.lt_of_not_le fun hLe => ?_)
      exact List.not_mem_nil (hCodes c hMem hLe)
  | cons code codes ih =>
    obtain ⟨hLess, hSorted⟩ := List.pairwise_cons.mp hSorted
    have hNone : ∀ c ∈ label, c.toNat < code → c.toNat < next := by
      intro c hMem hLt
      refine Nat.lt_of_not_le fun hLe => ?_
      rcases List.mem_cons.mp (hCodes c hMem hLe) with hEq | hLater
      · omega
      · exact Nat.lt_asymm hLt (hLess _ hLater)
    obtain ⟨k', h'⟩ := synced_round h (hNext code List.mem_cons_self) hNone
    rw [rounds_cons]
    refine ih h' hSorted hLess fun c hMem hLe => ?_
    have hHigh : next ≤ c.toNat := (hNext code List.mem_cons_self).trans (Nat.le_of_succ_le hLe)
    rcases List.mem_cons.mp (hCodes c hMem hHigh) with hEq | hLater
    · omega
    · exact hLater

/-! ## Labels -/

theorem pairwise_lt_eraseDups {ns : List Nat} (h : ns.Pairwise (· ≤ ·)) :
    ns.eraseDups.Pairwise (· < ·) := by
  induction hLength : ns.length using Nat.strong_induction_on generalizing ns with
  | _ length ih =>
    cases ns with
    | nil => exact .nil
    | cons n ns =>
      obtain ⟨hLeast, hSorted⟩ := List.pairwise_cons.mp h
      have hShorter : (ns.filter fun m => !m == n).length < length :=
        (Nat.lt_succ_of_le (List.length_filter_le _ _)).trans_eq hLength
      rw [List.eraseDups_cons]
      refine List.pairwise_cons.mpr ⟨fun m hMem => ?_, ih _ hShorter (hSorted.filter _) rfl⟩
      obtain ⟨hMem, hOther⟩ := List.mem_filter.mp (List.mem_eraseDups.mp hMem)
      have hNe : m ≠ n := by simpa using hOther
      exact Nat.lt_of_le_of_ne (hLeast m hMem) hNe.symm

/-- The codes of a label, in order. -/
theorem codes_spec (label : List Char) :
    let codes := ((label.filter (0x80 ≤ ·.toNat)).map Char.toNat).mergeSort.eraseDups
    codes.Pairwise (· < ·) ∧ (∀ code ∈ codes, 0x80 ≤ code) ∧
      ∀ c ∈ label, 0x80 ≤ c.toNat → c.toNat ∈ codes := by
  have hSorted : (((label.filter (0x80 ≤ ·.toNat)).map Char.toNat).mergeSort).Pairwise (· ≤ ·) := by
    have hMerged := @List.pairwise_mergeSort _ (fun a b : Nat => decide (a ≤ b))
      (fun a b c => by simpa using Nat.le_trans) (fun a b => by simpa using Nat.le_total a b)
      ((label.filter (0x80 ≤ ·.toNat)).map Char.toNat)
    exact hMerged.imp of_decide_eq_true
  refine ⟨pairwise_lt_eraseDups hSorted, fun code hMem => ?_, fun c hMem hHigh => ?_⟩
  · obtain ⟨c, hHigh, rfl⟩ := List.mem_map.mp (List.mem_mergeSort.mp (List.mem_eraseDups.mp hMem))
    exact of_decide_eq_true (List.mem_filter.mp hHigh).2
  · refine List.mem_eraseDups.mpr (List.mem_mergeSort.mpr (List.mem_map.mpr ⟨c, ?_, rfl⟩))
    exact List.mem_filter.mpr ⟨hMem, decide_eq_true hHigh⟩

/-- The ASCII characters of a label. -/
def ascii (label : List Char) : List Char := label.filter (·.toNat < 0x80)

/-- The ASCII characters of a label and the hyphen after them. -/
def opening (label : List Char) : List Char :=
  if (ascii label).isEmpty then []
  else ascii label ++ ['-']

theorem dropLast_opening (label : List Char) :
    (opening label).dropLast = ascii label := by
  rw [opening]
  split
  case isTrue hEmpty => rw [List.isEmpty_iff.mp hEmpty, List.dropLast_nil]
  case isFalse => rw [List.dropLast_concat]

theorem mem_opening {label : List Char} {c : Char} (h : c ∈ opening label) :
    c = '-' ∨ c ∈ ascii label := by
  rw [opening] at h
  split at h
  case isTrue => cases h
  case isFalse =>
    rcases List.mem_append.mp h with hMem | hMem
    · exact Or.inr hMem
    · exact Or.inl (List.mem_singleton.mp hMem)

/-- What a label is written with, and how its numerals are read. -/
theorem encode_spec (label : List Char) :
    ∃ numerals, encode label = opening label ++ numerals ∧
      (∀ c ∈ numerals, ∃ d < 36, c = digit d) ∧
      ∀ fuel, numerals.length ≤ fuel →
        insertions? fuel 72 0x80 0 true (ascii label) numerals = some label := by
  obtain ⟨hSorted, hHigh, hCodes⟩ := codes_spec label
  have hStart : Synced (ascii label) (opening label) 0x80 [] label
      ⟨opening label, 0, 72, (ascii label).length, true⟩
      ⟨72, 0x80, 0, true, ascii label⟩ :=
    ⟨rfl, rfl, rfl, rfl, rfl, [], (List.append_nil _).symm, fun _ hMem => (nomatch hMem),
      fun fuel rest hFuel => ⟨fuel, hFuel, rfl⟩⟩
  exact synced_rounds hStart hSorted hHigh hCodes

/-- The characters that a label is written with. -/
theorem mem_encode {label : List Char} {c : Char} (h : c ∈ encode label) :
    c = '-' ∨ c ∈ ascii label ∨ ∃ d < 36, c = digit d := by
  obtain ⟨numerals, hText, hDigits, -⟩ := encode_spec label
  rw [hText] at h
  rcases List.mem_append.mp h with hMem | hMem
  · exact (mem_opening hMem).imp_right Or.inl
  · exact Or.inr (Or.inr (hDigits c hMem))

theorem hyphen_notMem {numerals : List Char} (h : ∀ c ∈ numerals, ∃ d < 36, c = digit d) :
    '-' ∉ numerals := by
  intro hMem
  obtain ⟨d, hLt, hEq⟩ := h _ hMem
  have hAll : ∀ d : Fin 36, '-' ≠ digit d := by decide
  exact hAll ⟨d, hLt⟩ hEq

/-- **Punycode reads back.** What a label is written as is read as the label. -/
theorem decode?_encode (label : List Char) : decode? (encode label) = some label := by
  obtain ⟨numerals, hText, hDigits, hReads⟩ := encode_spec label
  have hTail : ((opening label ++ numerals).reverse.takeWhile (· ≠ '-')).reverse = numerals := by
    have hAll : ∀ c ∈ numerals.reverse, decide (c ≠ '-') = true := fun c hMem =>
      decide_eq_true fun hEq => hyphen_notMem hDigits (hEq ▸ List.mem_reverse.mp hMem)
    rw [List.reverse_append, List.takeWhile_append_of_pos hAll, opening]
    split
    case isTrue => simp
    case isFalse => simp
  have hBasic : (opening label ++ numerals).take
      ((opening label ++ numerals).length - numerals.length) = opening label := by
    rw [List.length_append, Nat.add_sub_cancel, List.take_left]
  rw [decode?, hText]
  simp only [hTail, hBasic, dropLast_opening]
  exact hReads _ (by rw [List.length_append]; exact Nat.le_add_left _ _)

end TripPlanner.Url.Punycode
