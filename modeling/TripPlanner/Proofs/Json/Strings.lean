import TripPlanner.Json.Reader
import TripPlanner.Json.Writer
import Mathlib.Tactic.SplitIfs

/-!
# Strings read back

Every character of a string is read from its escape (`codes?_escape`), and characters are no halves
of surrogate pairs (`join?_toNat`). So a string is read as it was written, whatever follows its
closing quote (`string?_quoted`).
-/

namespace TripPlanner.Json

open Text

/-! ## Escapes -/

/-- A code that has been read, and what follows it. -/
def withCode (code : Nat) (rest : List Char) : Option (List Nat × List Char) :=
  (codes? rest).map fun found => (code :: found.1, found.2)

theorem bind_codes? (code : Nat) (rest : List Char) :
    (codes? rest).bind (fun found => some (code :: found.1, found.2)) = withCode code rest := by
  rw [withCode, Option.map_eq_bind]
  rfl

theorem codes?_letter {e c : Char} (h : unescape? e = some c) (rest : List Char) :
    codes? ('\\' :: e :: rest) = withCode c.toNat rest := by
  have hOther : e ≠ 'u' := by
    rintro rfl
    cases h
  rw [codes?]
  · simp only [h, Option.bind_eq_bind, Option.bind_some]
    exact bind_codes? _ _
  · rintro _ _ _ _ _ rfl
    exact absurd rfl hOther

theorem codes?_number {a b c d : Char} {code : Nat} (h : hex4? a b c d = some code)
    (rest : List Char) : codes? ('\\' :: 'u' :: a :: b :: c :: d :: rest) = withCode code rest := by
  rw [codes?]
  simp only [h, Option.bind_eq_bind, Option.bind_some]
  exact bind_codes? _ _

theorem codes?_plain {c : Char} (hQuote : c ≠ '"') (hEscape : c ≠ '\\') (hPlain : ¬ c.toNat < 0x20)
    (rest : List Char) : codes? (c :: rest) = withCode c.toNat rest := by
  rw [codes?]
  · rw [if_neg (not_or.mpr ⟨hEscape, hPlain⟩)]
    exact bind_codes? _ _
  · exact hQuote
  · rintro _ _ _ _ _ rfl
    exact absurd rfl hEscape
  · rintro _ _ rfl
    exact absurd rfl hEscape

/-- Control characters are written with four hexadecimal digits. -/
theorem hex4?_control {n : Nat} (h : n < 0x20) :
    hex4? '0' '0' (hexDigit (n / 16)) (hexDigit (n % 16)) = some n := by
  have hAll : ∀ n < 0x20, hex4? '0' '0' (hexDigit (n / 16)) (hexDigit (n % 16)) = some n := by
    decide
  exact hAll n h

/-- A character is read from its escape. -/
theorem codes?_escape (c : Char) (rest : List Char) :
    codes? (escape c ++ rest) = withCode c.toNat rest := by
  rw [escape]
  split_ifs with hQuote hEscape hBack hTab hLine hPage hReturn hControl
  · rw [hQuote]
    exact codes?_letter rfl rest
  · rw [hEscape]
    exact codes?_letter rfl rest
  · rw [hBack]
    exact codes?_letter rfl rest
  · rw [hTab]
    exact codes?_letter rfl rest
  · rw [hLine]
    exact codes?_letter rfl rest
  · rw [hPage]
    exact codes?_letter rfl rest
  · rw [hReturn]
    exact codes?_letter rfl rest
  · exact codes?_number (hex4?_control hControl) rest
  · exact codes?_plain hQuote hEscape hControl rest

theorem codes?_flatMap_escape (s rest : List Char) :
    codes? (s.flatMap escape ++ '"' :: rest) = some (s.map Char.toNat, rest) := by
  induction s with
  | nil => rfl
  | cons c s ih =>
    rw [List.flatMap_cons, List.append_assoc, codes?_escape, withCode, ih]
    rfl

/-! ## Characters -/

/-- The number of a character is no half of a surrogate pair. -/
theorem not_surrogate (c : Char) : isHigh c.toNat = false ∧ isLow c.toNat = false := by
  have hValid : c.toNat < 0xD800 ∨ 0xDFFF < c.toNat ∧ c.toNat < 0x110000 := c.valid
  rw [isHigh, isLow, Bool.and_eq_false_iff, Bool.and_eq_false_iff, decide_eq_false_iff_not,
    decide_eq_false_iff_not, decide_eq_false_iff_not, decide_eq_false_iff_not]
  omega

theorem join?_toNat (s : List Char) : join? (s.map Char.toNat) = some s := by
  induction s with
  | nil => rfl
  | cons c s ih =>
    obtain ⟨hHigh, hLow⟩ := not_surrogate c
    cases s with
    | nil => simp [join?, hHigh, hLow]
    | cons d s =>
      rw [List.map_cons] at ih
      simp [join?, hHigh, hLow, ih]

/-- A string is read as it was written, whatever follows it. -/
theorem string?_quoted (s : String) (rest : List Char) :
    string? (s.toList.flatMap escape ++ '"' :: rest) = some (some s, rest) := by
  simp only [string?, codes?_flatMap_escape, Option.map_some, join?_toNat, String.ofList_toList]

end TripPlanner.Json
