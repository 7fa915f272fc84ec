import TripPlanner.Json.Shape
import TripPlanner.Json.Writer
import TripPlanner.Proofs.Binary64.Reading

/-!
# Numerals read back

Numbers are written as numerals (`Number.exists_numeral`), and a numeral is read as it was written,
whatever follows that does not go on with it (`Numeral.read?_write`). Whether the numeral stands for
the same number again is another question, as numerals with a fraction or an exponent are read in
two steps that both round. A number is *legible* if it does (`Number.Legible`); integers that fit
sixty-four bits are (`Number.legible_integer`).
-/

namespace TripPlanner.Json

open Text

namespace Numeral

/-! ## Numerals as texts -/

/-- The writing of an exponent. -/
def exponentText : Option Int → List Char
  | none => []
  | some e => 'e' :: ((if 0 ≤ e then ['+'] else []) ++ integer e)

/-- The writing of a fraction. -/
def fractionText (ds : List Char) : List Char := if ds.isEmpty then [] else '.' :: ds

/-- The writing of a numeral. -/
def write (n : Numeral) : List Char :=
  (if n.negative then ['-'] else []) ++ (n.whole ++ (fractionText n.fraction ++
    exponentText n.exponent))

/-- A numeral whose digits are digits, with no zero before others. -/
structure Proper (n : Numeral) : Prop where
  isWhole : isWhole n.whole = true
  whole : ∀ c ∈ n.whole, isDigit c = true
  fraction : ∀ c ∈ n.fraction, isDigit c = true

/-- A text that does not go on with a numeral. -/
def Ends (rest : List Char) : Prop :=
  ∀ c ∈ rest.head?, isDigit c = false ∧ c ≠ '.' ∧ c ≠ 'e' ∧ c ≠ 'E'

variable {rest : List Char}

theorem Ends.stopsDigits (h : Ends rest) : StopsDigits rest := fun c hMem => (h c hMem).1

theorem ends_nil : Ends [] := nofun

theorem ends_cons {c : Char} (h : isDigit c = false ∧ c ≠ '.' ∧ c ≠ 'e' ∧ c ≠ 'E')
    (rest : List Char) : Ends (c :: rest) := by
  rintro d ⟨⟩
  exact h

theorem minus_of_digit {s : List Char} (h : ∀ c ∈ s.head?, isDigit c = true) :
    minus s = (false, s) := by
  unfold minus
  split
  case h_1 => exact absurd (h '-' rfl) (by decide)
  case h_2 => rfl

theorem exponent?_write (e : Option Int) (h : Ends rest) :
    exponent? (exponentText e ++ rest) = some (e, rest) := by
  cases e with
  | none =>
    cases rest with
    | nil => rfl
    | cons c rest =>
      obtain ⟨-, -, hSmall, hLarge⟩ := h c rfl
      exact if_neg (not_or.mpr ⟨hSmall, hLarge⟩)
  | some e =>
    have hSpan : ∀ n, spanDigits (digits n ++ rest) = (digits n, rest) := fun n =>
      spanDigits_append (fun _ => isDigit_of_mem_digits) h.stopsDigits
    cases e with
    | ofNat n =>
      simp [exponentText, exponent?, Binary64.signed, integer, hSpan, digits_ne_nil,
        ofDigits_digits]
    | negSucc n =>
      have hNegative : ¬ 0 ≤ Int.negSucc n := by omega
      simp [exponentText, exponent?, Binary64.signed, integer, hSpan, digits_ne_nil,
        ofDigits_digits, hNegative]
      omega

theorem stopsDigits_exponentText (e : Option Int) (h : Ends rest) :
    StopsDigits (exponentText e ++ rest) := by
  cases e with
  | none => exact h.stopsDigits
  | some e => exact stopsDigits_cons rfl _

theorem fraction?_write {ds : List Char} (hDigits : ∀ c ∈ ds, isDigit c = true) (e : Option Int)
    (h : Ends rest) :
    fraction? (fractionText ds ++ (exponentText e ++ rest)) =
      some (ds, exponentText e ++ rest) := by
  have hStops := stopsDigits_exponentText e h
  unfold fractionText
  split
  case isTrue hEmpty =>
    rw [List.isEmpty_iff.mp hEmpty, List.nil_append]
    unfold fraction?
    split
    case h_1 hPoint =>
      cases e with
      | none =>
        rw [exponentText, List.nil_append] at hPoint
        exact absurd rfl (h '.' (hPoint ▸ rfl)).2.1
      | some e => cases hPoint
    case h_2 => rfl
  case isFalse hEmpty =>
    rw [List.cons_append, fraction?, spanDigits_append hDigits hStops]
    simp only [hEmpty, Bool.false_eq_true, if_false]

theorem stopsDigits_fractionText (ds : List Char) (e : Option Int) (h : Ends rest) :
    StopsDigits (fractionText ds ++ (exponentText e ++ rest)) := by
  unfold fractionText
  split
  case isTrue => exact stopsDigits_exponentText e h
  case isFalse => exact stopsDigits_cons rfl _

theorem whole_ne_nil {n : Numeral} (h : n.Proper) : n.whole ≠ [] := by
  intro hNil
  have hWhole := h.isWhole
  rw [hNil] at hWhole
  cases hWhole

theorem minus_write {n : Numeral} (h : n.Proper) (more : List Char) :
    minus ((if n.negative then ['-'] else []) ++ (n.whole ++ more)) =
      (n.negative, n.whole ++ more) := by
  cases n.negative with
  | true => rfl
  | false =>
    obtain ⟨d, ds, hDigits⟩ := List.exists_cons_of_ne_nil (whole_ne_nil h)
    refine minus_of_digit ?_
    rw [hDigits]
    rintro _ ⟨⟩
    exact h.whole d (hDigits ▸ List.mem_cons_self)

/-- A numeral is read as it was written, whatever follows that does not go on with it. -/
theorem read?_write {n : Numeral} (hProper : n.Proper) (h : Ends rest) :
    read? (n.write ++ rest) = some (n, rest) := by
  have hSpan := spanDigits_append hProper.whole (stopsDigits_fractionText n.fraction n.exponent h)
  rw [write, List.append_assoc, List.append_assoc, List.append_assoc, read?, minus_write hProper]
  simp only [hSpan, hProper.isWhole, if_true, fraction?_write hProper.fraction _ h,
    exponent?_write _ h, Option.bind_eq_bind, Option.bind_some]

end Numeral

/-! ## Digits of numerals -/

theorem isWhole_cons {c : Char} (h : c ≠ '0') (rest : List Char) :
    Numeral.isWhole (c :: rest) = true := by
  unfold Numeral.isWhole
  split
  case h_1 hEq => cases hEq
  case h_2 hEq =>
    cases hEq
    exact absurd rfl h
  case h_3 => rfl

theorem digits_cons {n : Nat} (h : n ≠ 0) : ∃ c rest, digits n = c :: rest ∧ c ≠ '0' := by
  induction n using Nat.strongRecOn with
  | ind n ih =>
    by_cases hLarge : 10 ≤ n
    · obtain ⟨c, rest, hDigits, hZero⟩ := ih (n / 10) (by omega) (by omega)
      have hAppend : digits n = digits (n / 10) ++ [Nat.digitChar (n % 10)] :=
        Nat.toDigits_of_base_le (by decide) hLarge
      rw [hAppend, hDigits]
      exact ⟨c, _, rfl, hZero⟩
    · have hSingle : digits n = [Nat.digitChar n] := Nat.toDigits_of_lt_base (by omega)
      have hAll : ∀ n < 10, n ≠ 0 → Nat.digitChar n ≠ '0' := by decide
      exact ⟨_, [], hSingle, hAll n (by omega) h⟩

theorem isWhole_digits (n : Nat) : Numeral.isWhole (digits n) = true := by
  by_cases hZero : n = 0
  · rw [hZero]
    rfl
  · obtain ⟨c, rest, hDigits, hNonzero⟩ := digits_cons hZero
    rw [hDigits]
    exact isWhole_cons hNonzero rest

/-! ## Decimals as numerals -/

namespace Numeral

/-- The numeral that a decimal is written as. -/
def ofDecimal (negative : Bool) (d : Decimal) : Numeral :=
  let ds := digits d.digits
  let point := ds.length + d.exponent
  if Layout.document.positional (point - 1) then
    if point ≤ 0 then ⟨negative, ['0'], List.replicate (-point).toNat '0' ++ ds, none⟩
    else if point < ds.length then ⟨negative, ds.take point.toNat, ds.drop point.toNat, none⟩
    else ⟨negative, ds ++ List.replicate (point.toNat - ds.length) '0', ['0'], none⟩
  else ⟨negative, ds.take 1, ds.drop 1, some (point - 1)⟩

theorem fractionText_of_ne_nil {ds : List Char} (h : ds ≠ []) : fractionText ds = '.' :: ds := by
  rw [fractionText, List.isEmpty_eq_false_iff.mpr h]
  rfl

theorem write_ofDecimal (negative : Bool) (d : Decimal) :
    (ofDecimal negative d).write =
      (if negative then ['-'] else []) ++ Layout.document.decimal d := by
  have hNe : digits d.digits ≠ [] := digits_ne_nil _
  rw [ofDecimal, Layout.decimal]
  generalize digits d.digits = ds at hNe
  split
  case isTrue =>
    rw [Layout.positionally]
    split
    case isTrue =>
      rw [write, fractionText_of_ne_nil (by simp [hNe]), exponentText, List.append_nil]
      rfl
    split
    case isTrue hLess =>
      rw [write, fractionText_of_ne_nil (by simp; omega), exponentText, List.append_nil]
    case isFalse =>
      rw [write, fractionText_of_ne_nil (by simp), exponentText, List.append_nil]
      rfl
  case isFalse =>
    obtain ⟨c, rest, rfl⟩ := List.exists_cons_of_ne_nil hNe
    cases rest with
    | nil => rfl
    | cons d rest => simp [write, fractionText, exponentText, Layout.scientifically]

/-- The numeral of a decimal is proper, if zero is not given with an exponent. -/
theorem proper_ofDecimal (negative : Bool) {d : Decimal} (h : d.digits = 0 → d.exponent = 0) :
    (ofDecimal negative d).Proper := by
  have hSingle : ∀ c ∈ ['0'], isDigit c = true := List.forall_mem_singleton.mpr rfl
  by_cases hZero : d.digits = 0
  · have hNumeral : ofDecimal negative d = ⟨negative, ['0'], ['0'], none⟩ := by
      rw [ofDecimal, hZero, h hZero]
      rfl
    rw [hNumeral]
    exact ⟨rfl, hSingle, hSingle⟩
  obtain ⟨c, rest, hText, hHead⟩ := digits_cons hZero
  have hDigits : ∀ d ∈ c :: rest, isDigit d = true := fun _ hMem =>
    isDigit_of_mem_digits (hText ▸ hMem)
  have hTake : ∀ n : Nat, 0 < n → isWhole ((c :: rest).take n) = true := by
    rintro (_ | n) hPos
    · cases hPos
    · exact isWhole_cons hHead _
  rw [ofDecimal, hText]
  split
  case isTrue =>
    split
    case isTrue =>
      exact ⟨rfl, hSingle, fun d hMem => (List.mem_append.mp hMem).elim
        isDigit_of_mem_replicate (hDigits d)⟩
    split
    case isTrue hPoint hLess =>
      exact ⟨hTake _ (by omega), fun d hMem => hDigits d (List.mem_of_mem_take hMem),
        fun d hMem => hDigits d (List.mem_of_mem_drop hMem)⟩
    case isFalse =>
      exact ⟨isWhole_cons hHead _, fun d hMem => (List.mem_append.mp hMem).elim (hDigits d)
        isDigit_of_mem_replicate, hSingle⟩
  case isFalse =>
    exact ⟨hTake 1 Nat.one_pos, fun d hMem => hDigits d (List.mem_of_mem_take hMem),
      fun d hMem => hDigits d (List.mem_of_mem_drop hMem)⟩

/-- The numeral that an integer is written as. -/
def ofInteger (i : Int) : Numeral := ⟨i < 0, digits i.natAbs, [], none⟩

theorem write_ofInteger (i : Int) : (ofInteger i).write = Text.integer i := by
  cases i with
  | ofNat n => simp [ofInteger, Text.integer, write, fractionText, exponentText]
  | negSucc n =>
    have hNegative : Int.negSucc n < 0 := Int.negSucc_lt_zero n
    simp [ofInteger, Text.integer, write, fractionText, exponentText, hNegative]

theorem proper_ofInteger (i : Int) : (ofInteger i).Proper :=
  ⟨isWhole_digits _, fun _ => isDigit_of_mem_digits, fun _ hMem => absurd hMem List.not_mem_nil⟩

end Numeral

/-! ## Numbers as numerals -/

namespace Number

/-- The decimal of a number is zero only where the number is. -/
theorem exponent_shortest (tie : Binary64.Tie) {rank : Nat} (h : rank < Binary64.ranks)
    (hZero : (Binary64.shortest tie rank).digits = 0) :
    (Binary64.shortest tie rank).exponent = 0 := by
  have hRank : rank = 0 := by
    rw [← Binary64.rank_shortest tie h, Decimal.rank, if_pos (Or.inl hZero)]
  rw [hRank]
  rfl

/-- A number that is written as one. -/
def isWritten : Number → Bool
  | .integer _ => true
  | .real x => x.isFinite

theorem exists_numeral {n : Number} (h : n.isWritten = true) :
    ∃ m : Numeral, m.Proper ∧ n.write = m.write := by
  cases n with
  | integer i => exact ⟨_, Numeral.proper_ofInteger i, (Numeral.write_ofInteger i).symm⟩
  | real x =>
    cases x with
    | infinite negative => cases h
    | nan => cases h
    | finite negative rank =>
      refine ⟨_, Numeral.proper_ofDecimal negative (exponent_shortest .even rank.isLt), ?_⟩
      rw [Numeral.write_ofDecimal]
      rfl

end Number

/-! ## Numbers in texts -/

namespace Numeral

/-- What a numeral may begin with. -/
def begins (c : Char) : Bool := c = '-' || isDigit c

theorem exists_cons {m : Numeral} (h : m.Proper) (rest : List Char) :
    ∃ c more, m.write ++ rest = c :: more ∧ begins c = true := by
  obtain ⟨d, ds, hDigits⟩ := List.exists_cons_of_ne_nil (whole_ne_nil h)
  rw [write, hDigits]
  cases m.negative with
  | true => exact ⟨'-', _, rfl, rfl⟩
  | false => exact ⟨d, _, rfl, by simp [begins, h.whole d (hDigits ▸ List.mem_cons_self)]⟩

theorem ne_of_begins {c d : Char} (h : begins c = true) (hOther : begins d = false) : c ≠ d := by
  rintro rfl
  exact Bool.false_ne_true (hOther.symm.trans h)

theorem isSpace_of_begins {c : Char} (h : begins c = true) : isSpace c = false := by
  simp only [isSpace, Bool.or_eq_false_iff, beq_eq_false_iff_ne]
  exact ⟨⟨⟨ne_of_begins h rfl, ne_of_begins h rfl⟩, ne_of_begins h rfl⟩, ne_of_begins h rfl⟩

end Numeral

theorem skip_cons {c : Char} (h : isSpace c = false) (rest : List Char) :
    skip (c :: rest) = c :: rest :=
  List.dropWhile_cons_of_neg (by rw [h]; decide)

theorem Tree.read?_numeral {c : Char} (h : Numeral.begins c = true) (fuel : Nat)
    (rest : List Char) : read? (fuel + 1) (c :: rest) =
      (Numeral.read? (c :: rest)).map fun found => (.number found.1.number?, found.2) := by
  rw [read?, skip_cons (Numeral.isSpace_of_begins h)]
  split
  -- The last case is the one of numbers, the others begin with something else.
  all_goals first
    | rfl
    | (rename_i hEq; cases hEq; exact absurd rfl (Numeral.ne_of_begins h rfl))

theorem Tree.read?_write {m : Numeral} (hProper : m.Proper) {rest : List Char}
    (h : Numeral.Ends rest) (fuel : Nat) :
    read? (fuel + 1) (m.write ++ rest) = some (.number m.number?, rest) := by
  obtain ⟨c, more, hText, hHead⟩ := Numeral.exists_cons hProper rest
  rw [hText, read?_numeral hHead, ← hText, Numeral.read?_write hProper h, Option.map_some]

/-! ## Legible numbers -/

namespace Number

/-- A number that is read as it was written. -/
def Legible (n : Number) : Prop :=
  Json.read? Shape.value (Value.number n).compact = some (.number n)

theorem read?_compact {n : Number} {m : Numeral} (hProper : m.Proper) (hWrite : n.write = m.write) :
    Json.read? Shape.value (Value.number n).compact = m.number?.map .number := by
  have hTree := Tree.read?_write hProper Numeral.ends_nil (2 * m.write.length + 1)
  rw [List.append_nil] at hTree
  have hText : Tree.ofText? (Value.number n).compact.toList = some (.number m.number?) := by
    rw [Value.compact, String.toList_ofList, Value.write, hWrite, Tree.ofText?, hTree]
    rfl
  rw [Json.read?, hText]
  rfl

theorem legible_iff {n : Number} {m : Numeral} (hProper : m.Proper) (hWrite : n.write = m.write) :
    n.Legible ↔ m.number? = some n := by
  rw [Legible, read?_compact hProper hWrite]
  simp

/-- What is written as null is read as null. -/
theorem Legible.isWritten {n : Number} (h : n.Legible) : n.isWritten = true := by
  by_contra hNot
  have hNull : n.write = "null".toList := by
    cases n with
    | integer i => exact absurd rfl hNot
    | real x => exact if_neg hNot
  have hRead : Json.read? Shape.value (Value.number n).compact = some .null := by
    rw [Value.compact, Value.write, hNull]
    rfl
  rw [Legible, hRead] at h
  cases h

/-- An integer of sixty-four bits is legible. -/
theorem legible_integer {i : Int} (hLow : -(Word.values 63 : Int) ≤ i)
    (hHigh : i < Word.values 64) : (integer i).Legible := by
  have hWrite : (integer i).write = (Numeral.ofInteger i).write := (Numeral.write_ofInteger i).symm
  rw [legible_iff (Numeral.proper_ofInteger i) hWrite]
  have hHalf : Word.values 63 < Word.values 64 := by decide
  have hFits : i.natAbs < Word.values 64 := by omega
  simp only [Numeral.number?, Numeral.ofInteger, ofDigits_digits, List.isEmpty_nil,
    Option.isNone_none, Bool.and_self, hFits, decide_true, if_true, Bool.not_eq_true',
    decide_eq_false_iff_not]
  split
  case isTrue hPositive =>
    congr 2
    omega
  case isFalse hNegative =>
    rw [if_pos ⟨by omega, by omega⟩]
    congr 2
    omega

end Number

theorem Tree.read?_number {n : Number} (h : n.Legible) {rest : List Char}
    (hEnds : Numeral.Ends rest) (fuel : Nat) :
    read? (fuel + 1) (n.write ++ rest) = some (.number (some n), rest) := by
  obtain ⟨m, hProper, hWrite⟩ := Number.exists_numeral h.isWritten
  rw [hWrite, read?_write hProper hEnds, (Number.legible_iff hProper hWrite).mp h]

end TripPlanner.Json
