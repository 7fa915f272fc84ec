import TripPlanner.Proofs.Text.Numerals
import TripPlanner.Proofs.Text.Trimming
import TripPlanner.TimeSpan
import Mathlib.Tactic.SplitIfs

/-!
# Which texts are time spans

The texts of time spans are a language of their own (`Amounts`): the mark `PT`, then numerals of
hours, minutes and seconds, each with its designator and in that order, at least one of them given.
The reader goes through a text once, with the digits since the last designator in hand. What it
accepts from there on is a sequence of amounts of ever smaller units (`Writes`), and what it counts
is their sum, as long as that is no longer than a time span may be (`amounts_eq_ok_iff`). From the
first unit on these are the texts of the language (`lasting_eq_ok_iff`), so a text is read exactly
if it is one of them and lasts no longer than the longest time span (`exact_language`).
-/

namespace TripPlanner.TimeSpan

open Text

/-! ## The language -/

/-- One or more digits, as many zeros among them as there may be. -/
structure Numeral where
  digits : List Char
  nonempty : digits ≠ []
  isDigit : ∀ c ∈ digits, Text.isDigit c = true

/-- An amount with its designator, if it is given. -/
def part (designator : Char) : Option Numeral → List Char
  | none => []
  | some n => n.digits ++ [designator]

/-- The number of an amount; one that is not given is none. -/
def count : Option Numeral → Nat
  | none => 0
  | some n => ofDigits n.digits

/-- Amounts of hours, minutes and seconds, at least one of them given. -/
structure Amounts where
  hours : Option Numeral
  minutes : Option Numeral
  seconds : Option Numeral
  given : hours.isSome ∨ minutes.isSome ∨ seconds.isSome

/-- Amounts as they are written. -/
def Amounts.text (a : Amounts) : List Char :=
  'P' :: 'T' :: (part 'H' a.hours ++ (part 'M' a.minutes ++ part 'S' a.seconds))

/-- The seconds that amounts stand for. -/
def Amounts.total (a : Amounts) : Nat :=
  3600 * count a.hours + 60 * count a.minutes + count a.seconds

/-! ## Amounts of ever smaller units -/

theorem scale?_eq_some_iff {c : Char} {scale : Nat} : scale? c = some scale ↔
    (c = 'H' ∧ scale = 3600) ∨ (c = 'M' ∧ scale = 60) ∨ (c = 'S' ∧ scale = 1) := by
  unfold scale?
  split <;> simp_all [eq_comm]

theorem isDigit_of_scale? {c : Char} {scale : Nat} (h : scale? c = some scale) :
    Text.isDigit c = false := by
  rcases scale?_eq_some_iff.mp h with ⟨rfl, -⟩ | ⟨rfl, -⟩ | ⟨rfl, -⟩ <;> rfl

theorem scale?_pos {c : Char} {scale : Nat} (h : scale? c = some scale) : 0 < scale := by
  rcases scale?_eq_some_iff.mp h with ⟨-, rfl⟩ | ⟨-, rfl⟩ | ⟨-, rfl⟩ <;> decide

/-- A text is a sequence of amounts, each of a smaller unit than the one before and the first of one
below `bound`. Together they are so many seconds. -/
inductive Writes : Nat → List Char → Nat → Prop
  | nil {bound : Nat} : Writes bound [] 0
  | amount {bound scale seconds : Nat} {c : Char} {rest : List Char} (n : Numeral)
      (hScale : scale? c = some scale) (hBound : scale < bound)
      (hRest : Writes scale rest seconds) :
      Writes bound (n.digits ++ c :: rest) (ofDigits n.digits * scale + seconds)

/-- Digits up to a character that is none are cut off in one way only. -/
theorem append_cons_inj {ds ds' rest rest' : List Char} {c c' : Char}
    (hDigits : ∀ d ∈ ds, Text.isDigit d = true) (hDigits' : ∀ d ∈ ds', Text.isDigit d = true)
    (hc : Text.isDigit c = false) (hc' : Text.isDigit c' = false)
    (h : ds ++ c :: rest = ds' ++ c' :: rest') : ds = ds' ∧ c = c' ∧ rest = rest' := by
  have hSpan := spanDigits_append hDigits (stopsDigits_cons hc rest)
  rw [h, spanDigits_append hDigits' (stopsDigits_cons hc' rest')] at hSpan
  obtain ⟨rfl, hTail⟩ := Prod.mk.inj hSpan
  obtain ⟨rfl, rfl⟩ := List.cons.inj hTail
  exact ⟨rfl, rfl, rfl⟩

theorem writes_digits {bound seconds : Nat} {ds : List Char}
    (hDigits : ∀ c ∈ ds, Text.isDigit c = true) :
    Writes bound ds seconds ↔ ds = [] ∧ seconds = 0 := by
  constructor
  · intro h
    cases h with
    | nil => exact ⟨rfl, rfl⟩
    | amount n hScale hBound hRest =>
      have hDigit := hDigits _ (List.mem_append_right _ List.mem_cons_self)
      rw [isDigit_of_scale? hScale] at hDigit
      cases hDigit
  · rintro ⟨rfl, rfl⟩
    exact .nil

theorem writes_append_cons {bound seconds : Nat} {ds rest : List Char} {c : Char}
    (hDigits : ∀ c ∈ ds, Text.isDigit c = true) (hc : Text.isDigit c = false) :
    Writes bound (ds ++ c :: rest) seconds ↔ ds ≠ [] ∧ ∃ scale later, scale? c = some scale ∧
      scale < bound ∧ Writes scale rest later ∧ seconds = ofDigits ds * scale + later := by
  constructor
  · intro h
    generalize hText : ds ++ c :: rest = text at h
    cases h with
    | nil => exact absurd hText (by simp)
    | amount n hScale hBound hRest =>
      obtain ⟨rfl, rfl, rfl⟩ :=
        append_cons_inj hDigits n.isDigit hc (isDigit_of_scale? hScale) hText
      exact ⟨n.nonempty, _, _, hScale, hBound, hRest, rfl⟩
  · rintro ⟨hNonempty, scale, later, hScale, hBound, hRest, rfl⟩
    exact .amount ⟨ds, hNonempty, hDigits⟩ hScale hBound hRest

theorem Writes.mono {bound bound' seconds : Nat} {text : List Char} (h : Writes bound text seconds)
    (hBound : bound ≤ bound') : Writes bound' text seconds := by
  cases h with
  | nil => exact .nil
  | amount n hScale hLess hRest => exact .amount n hScale (hLess.trans_le hBound) hRest

theorem Writes.unique {bound seconds seconds' : Nat} {text : List Char}
    (h : Writes bound text seconds) (h' : Writes bound text seconds') : seconds = seconds' := by
  induction h generalizing seconds' with
  | nil => exact ((writes_digits (by simp)).mp h').2.symm
  | amount n hScale _ _ ih =>
    obtain ⟨-, scale, later, hScale', -, hRest, rfl⟩ :=
      (writes_append_cons n.isDigit (isDigit_of_scale? hScale)).mp h'
    obtain rfl := Option.some.inj (hScale.symm.trans hScale')
    rw [ih hRest]

/-! ## The reader -/

/-- Amounts that are not too long in all pass the checks that are made for the first of them. -/
theorem passes_of_writes {total bound scale later : Nat} {ds rest : List Char} {c : Char}
    (hDigits : ∀ c ∈ ds, Text.isDigit c = true) (hScale : scale? c = some scale)
    (h : Writes bound (ds ++ c :: rest) later) (hLargest : total + later ≤ largest) :
    ds ≠ [] ∧ scale < bound ∧ ofDigits ds ≤ largest ∧ total + ofDigits ds * scale ≤ largest := by
  obtain ⟨hNonempty, _, _, hSame, hBound, -, rfl⟩ :=
    (writes_append_cons hDigits (isDigit_of_scale? hScale)).mp h
  obtain rfl := Option.some.inj (hScale.symm.trans hSame)
  have hValue : ofDigits ds ≤ ofDigits ds * scale :=
    Nat.le_mul_of_pos_right _ (scale?_pos hScale)
  exact ⟨hNonempty, hBound, by omega, by omega⟩

/-- With some digits in hand, the reader accepts what goes on with them as a sequence of amounts, if
their sum is not too long. -/
theorem amounts_eq_ok_iff {total bound seconds : Nat} {ds s : List Char}
    (hDigits : ∀ c ∈ ds, Text.isDigit c = true) :
    amounts total ds bound s = .ok seconds ↔
      ∃ later, Writes bound (ds ++ s) later ∧ seconds = total + later ∧ seconds ≤ longest := by
  have hSmall : longest ≤ largest := Nat.div_le_self _ _
  induction s generalizing total bound ds with
  | nil =>
    rw [List.append_nil]
    simp only [writes_digits hDigits, amounts]
    cases ds with
    | cons d ds => simp
    | nil =>
      split_ifs with hLong
      · simp at hLong
      · simp; omega
      · simp; omega
  | cons c rest ih =>
    cases hc : Text.isDigit c with
    | true =>
      have hMore : ∀ d ∈ ds ++ [c], Text.isDigit d = true := by
        simpa [or_imp, forall_and] using And.intro hDigits hc
      have hText : ds ++ c :: rest = ds ++ [c] ++ rest := by simp
      rw [amounts, if_pos hc, hText]
      exact ih hMore
    | false =>
      rw [amounts, hc, if_neg (by simp)]
      cases hScale : scale? c with
      | none =>
        refine iff_of_false (by simp) ?_
        rintro ⟨_, hWrites, -⟩
        obtain ⟨-, _, _, hSome, -⟩ := (writes_append_cons hDigits hc).mp hWrites
        rw [hScale] at hSome
        cases hSome
      | some scale =>
        -- What the language has passes the four checks of the reader, so these refuse nothing else.
        have hPasses : (∃ later, Writes bound (ds ++ c :: rest) later ∧ seconds = total + later ∧
            seconds ≤ longest) → ds ≠ [] ∧ scale < bound ∧ ofDigits ds ≤ largest ∧
              total + ofDigits ds * scale ≤ largest := by
          rintro ⟨later, hWrites, hSum, hLongest⟩
          exact passes_of_writes hDigits hScale hWrites (by omega)
        dsimp only
        split_ifs with hEmpty hOrder hLarge hLong
        · exact iff_of_false (by simp) fun h => (hPasses h).1 (List.isEmpty_iff.mp hEmpty)
        · exact iff_of_false (by simp) fun h => by have := hPasses h; omega
        · exact iff_of_false (by simp) fun h => by have := hPasses h; omega
        · exact iff_of_false (by simp) fun h => by have := hPasses h; omega
        · refine (ih (by simp)).trans ?_
          rw [List.nil_append]
          constructor
          · rintro ⟨later, hWrites, hSum, hLongest⟩
            refine ⟨_, .amount ⟨ds, by simpa using hEmpty, hDigits⟩ hScale (by omega) hWrites, ?_,
              hLongest⟩
            rw [hSum, Nat.add_assoc]
          · rintro ⟨_, hWrites, hSum, hLongest⟩
            obtain ⟨-, _, later, hSame, -, hLater, rfl⟩ :=
              (writes_append_cons hDigits hc).mp hWrites
            obtain rfl := Option.some.inj (hScale.symm.trans hSame)
            exact ⟨later, hLater, by omega, hLongest⟩

/-! ## The units one by one -/

/-- Amounts below a bound are an amount of the largest unit there is below it, if it is given, and
amounts of smaller units. -/
theorem writes_iff {bound scale seconds : Nat} {c : Char} {text : List Char}
    (hScale : scale? c = some scale) (hBound : scale < bound)
    (hLargest : ∀ c' scale', scale? c' = some scale' → scale' < bound → c' = c ∨ scale' < scale) :
    Writes bound text seconds ↔ ∃ (n : Option Numeral) (rest : List Char) (later : Nat),
      text = part c n ++ rest ∧ Writes scale rest later ∧ seconds = count n * scale + later := by
  constructor
  · intro h
    cases h with
    | nil => exact ⟨none, [], 0, rfl, .nil, by simp [count]⟩
    | @amount _ scale' later c' rest n hScale' hBound' hRest =>
      rcases hLargest c' scale' hScale' hBound' with rfl | hSmaller
      · obtain rfl := Option.some.inj (hScale.symm.trans hScale')
        exact ⟨some n, rest, later, by simp [part], hRest, rfl⟩
      · exact ⟨none, _, _, rfl, .amount n hScale' hSmaller hRest, by simp [count]⟩
  · rintro ⟨n, rest, later, rfl, hRest, rfl⟩
    cases n with
    | none => simpa [part, count] using hRest.mono hBound.le
    | some n => simpa [part, count] using Writes.amount n hScale hBound hRest

/-- There is no unit below a second. -/
theorem writes_one_iff {text : List Char} {seconds : Nat} :
    Writes 1 text seconds ↔ text = [] ∧ seconds = 0 := by
  constructor
  · intro h
    cases h with
    | nil => exact ⟨rfl, rfl⟩
    | amount n hScale hBound _ =>
      have := scale?_pos hScale
      omega
  · rintro ⟨rfl, rfl⟩
    exact .nil

theorem writes_all_iff {text : List Char} {seconds : Nat} :
    Writes 3601 text seconds ↔ ∃ h m s : Option Numeral,
      text = part 'H' h ++ (part 'M' m ++ part 'S' s) ∧
        seconds = 3600 * count h + 60 * count m + count s := by
  have hHours : ∀ c scale, scale? c = some scale → scale < 3601 → c = 'H' ∨ scale < 3600 := by
    intro c scale hScale _
    rcases scale?_eq_some_iff.mp hScale with ⟨rfl, -⟩ | ⟨-, rfl⟩ | ⟨-, rfl⟩ <;> simp
  have hMinutes : ∀ c scale, scale? c = some scale → scale < 3600 → c = 'M' ∨ scale < 60 := by
    intro c scale hScale hBound
    rcases scale?_eq_some_iff.mp hScale with ⟨-, rfl⟩ | ⟨rfl, -⟩ | ⟨-, rfl⟩ <;> simp_all
  have hSeconds : ∀ c scale, scale? c = some scale → scale < 60 → c = 'S' ∨ scale < 1 := by
    intro c scale hScale hBound
    rcases scale?_eq_some_iff.mp hScale with ⟨-, rfl⟩ | ⟨-, rfl⟩ | ⟨rfl, -⟩ <;> simp_all
  simp only [writes_iff (c := 'H') rfl (by decide) hHours,
    writes_iff (c := 'M') rfl (by decide) hMinutes, writes_iff (c := 'S') rfl (by decide) hSeconds,
    writes_one_iff]
  constructor
  · rintro ⟨h, _, _, rfl, ⟨m, _, _, rfl, ⟨s, _, _, rfl, ⟨rfl, rfl⟩, rfl⟩, rfl⟩, rfl⟩
    exact ⟨h, m, s, by simp, by omega⟩
  · rintro ⟨h, m, s, rfl, rfl⟩
    exact ⟨h, _, _, rfl, ⟨m, _, _, rfl, ⟨s, [], 0, by simp, ⟨rfl, rfl⟩, rfl⟩, rfl⟩, by omega⟩

theorem part_eq_nil_iff {designator : Char} {n : Option Numeral} :
    part designator n = [] ↔ n = none := by
  cases n <;> simp [part]

/-- The texts that are read are those of the language that last no longer than a time span may. -/
theorem lasting_eq_ok_iff {text : List Char} {seconds : Nat} : lasting text = .ok seconds ↔
    ∃ a : Amounts, text = a.text ∧ seconds = a.total ∧ a.total ≤ longest := by
  constructor
  · intro h
    unfold lasting at h
    split at h
    case h_2 => cases h
    case h_1 body =>
      split_ifs at h with hEmpty
      obtain ⟨_, hWrites, rfl, hLongest⟩ := (amounts_eq_ok_iff (by simp)).mp h
      obtain ⟨hours, minutes, seconds, rfl, rfl⟩ := writes_all_iff.mp hWrites
      have hGiven : hours.isSome ∨ minutes.isSome ∨ seconds.isSome := by
        simp only [List.isEmpty_iff, List.append_eq_nil_iff, part_eq_nil_iff] at hEmpty
        simp only [← Option.ne_none_iff_isSome]
        tauto
      rw [Nat.zero_add] at hLongest ⊢
      exact ⟨⟨hours, minutes, seconds, hGiven⟩, rfl, rfl, hLongest⟩
  · rintro ⟨a, rfl, rfl, hLongest⟩
    have hGiven := a.given
    have hBody : ¬ (part 'H' a.hours ++ (part 'M' a.minutes ++ part 'S' a.seconds)).isEmpty := by
      simp only [List.isEmpty_iff, List.append_eq_nil_iff, part_eq_nil_iff]
      simp only [← Option.ne_none_iff_isSome] at hGiven
      tauto
    rw [Amounts.text, lasting, if_neg hBody]
    refine (amounts_eq_ok_iff (by simp)).mpr ⟨a.total, ?_, (Nat.zero_add _).symm, hLongest⟩
    exact writes_all_iff.mpr ⟨_, _, _, rfl, rfl⟩

/-- A text of the language stands for one number of seconds. -/
theorem Amounts.total_eq {a b : Amounts} (h : a.text = b.text) : a.total = b.total := by
  simp only [text, List.cons.injEq, true_and] at h
  exact (writes_all_iff.mpr ⟨_, _, _, rfl, rfl⟩).unique (writes_all_iff.mpr ⟨_, _, _, h, rfl⟩)

/-! ## Time spans -/

theorem ofText_eq_ok_iff {s : String} {t : TimeSpan} : ofText s = .ok t ↔ t.text = trimmed s := by
  constructor
  · intro h
    unfold ofText at h
    split at h
    case h_1 => exact Except.ok.inj h ▸ rfl
    case h_2 => cases h
  · intro h
    unfold ofText
    split
    case h_1 => exact congrArg Except.ok (ext h.symm)
    case h_2 hFault =>
      rw [← h, t.written] at hFault
      cases hFault

theorem isBlank_of_mem_part {designator c : Char} {n : Option Numeral}
    (hDesignator : isBlank designator = false) (h : c ∈ part designator n) : isBlank c = false := by
  cases n with
  | none => cases h
  | some n =>
    rcases List.mem_append.mp h with hMem | hMem
    · exact isBlank_of_isDigit (n.isDigit c hMem)
    · exact List.mem_singleton.mp hMem ▸ hDesignator

/-- Time spans are written with the mark, digits and designators. -/
theorem isBlank_of_mem_text (t : TimeSpan) : ∀ c ∈ t.text.toList, isBlank c = false := by
  obtain ⟨a, hText, -, -⟩ := lasting_eq_ok_iff.mp t.written
  intro c hMem
  simp only [hText, Amounts.text, List.mem_cons, List.mem_append] at hMem
  rcases hMem with rfl | rfl | hMem | hMem | hMem
  · rfl
  · rfl
  all_goals exact isBlank_of_mem_part rfl hMem

/-- A time span is read as it was written. -/
theorem ofText_text (t : TimeSpan) : ofText t.text = .ok t :=
  ofText_eq_ok_iff.mpr (trimmed_eq_self t.isBlank_of_mem_text).symm

/-- **What is read as a time span.** A text is read exactly if, white space around it aside, it is
written in the language and its amounts are together no longer than 2⁶³ - 1 milliseconds, to the
second. The time span then has that text and lasts as long as its amounts say, and its text is read
as this time span again. Any number of minutes of thirty-two bits makes a time span, the one that is
read from the text of these minutes. -/
theorem exact_language (s : String) :
    ((∃ t, ofText s = .ok t) ↔ ∃ a : Amounts, (trimmed s).toList = a.text ∧
      a.total ≤ (Nat.pow 2 63 - 1) / 1000) ∧
      (∀ t, ofText s = .ok t → t.text = trimmed s ∧
        (∀ a : Amounts, (trimmed s).toList = a.text → t.seconds = a.total) ∧
        ofText t.text = .ok t) ∧
      ∀ n : UInt32, ∃ h : n.toNat * 60 ≤ longest,
        ofText (ofMinutes n.toNat h).text = .ok (ofMinutes n.toNat h) := by
  refine ⟨⟨?_, ?_⟩, fun t h => ?_, fun n => ?_⟩
  · rintro ⟨t, h⟩
    obtain ⟨a, hText, -, hLongest⟩ := lasting_eq_ok_iff.mp t.written
    exact ⟨a, ofText_eq_ok_iff.mp h ▸ hText, hLongest⟩
  · rintro ⟨a, hText, hLongest⟩
    have hWritten : lasting (trimmed s).toList = .ok a.total :=
      lasting_eq_ok_iff.mpr ⟨a, hText, rfl, hLongest⟩
    exact ⟨⟨trimmed s, a.total, hWritten⟩, ofText_eq_ok_iff.mpr rfl⟩
  · have hText := ofText_eq_ok_iff.mp h
    refine ⟨hText, fun a ha => ?_, t.ofText_text⟩
    obtain ⟨b, hb, hSeconds, -⟩ := lasting_eq_ok_iff.mp t.written
    rw [hSeconds]
    exact Amounts.total_eq (hb.symm.trans (hText ▸ ha))
  · have hBound : n.toNat * 60 ≤ longest := by
      have hMinutes := n.toNat_lt
      have hLongest : 4294967296 * 60 ≤ longest := by decide
      omega
    exact ⟨hBound, ofText_text _⟩

/-- Seven hours and sixty-one minutes, with zeros before the seven and white space around. -/
theorem exact_language_usual : ∃ t, ofText " PT007H61M\n" = .ok t ∧ t.text = "PT007H61M" ∧
    t.seconds = 28860 := by
  obtain ⟨hRead, hSpan, -⟩ := exact_language " PT007H61M\n"
  let a : Amounts := ⟨some ⟨['0', '0', '7'], by decide, List.all_eq_true.mp rfl⟩,
    some ⟨['6', '1'], by decide, List.all_eq_true.mp rfl⟩, none, Or.inl rfl⟩
  have hText : (trimmed " PT007H61M\n").toList = a.text := by decide
  obtain ⟨t, ht⟩ := hRead.mpr ⟨a, hText, by decide⟩
  obtain ⟨hTrimmed, hSeconds, -⟩ := hSpan t ht
  exact ⟨t, ht, hTrimmed.trans (by decide), hSeconds a hText⟩

end TripPlanner.TimeSpan
