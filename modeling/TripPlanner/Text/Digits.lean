/-!
# Numerals

Naturals in decimal, as texts: read by `ofDigits`, written by `digits`, and written with leading
zeros up to a width by `padded`. Only the ten ASCII digits count as digits. Hexadecimal digits
are read in either case (`hexValue?`).
-/

namespace TripPlanner.Text

/-- Whether a character is one of the ten ASCII digits. -/
def isDigit (c : Char) : Bool := '0' ≤ c && c ≤ '9'

/-- The value of an ASCII digit. -/
def digitValue (c : Char) : Nat := c.toNat - '0'.toNat

/-- The natural number that a run of digits writes. -/
def ofDigits (s : List Char) : Nat := s.foldl (fun n c => n * 10 + digitValue c) 0

/-- The digits of a natural number, without leading zeros; zero is written with one digit. -/
def digits (n : Nat) : List Char := Nat.toDigits 10 n

/-- The digits of a natural number with leading zeros up to a width. -/
def padded (width n : Nat) : List Char :=
  List.replicate (width - (digits n).length) '0' ++ digits n

/-- A run of digits and what follows it. -/
def spanDigits (s : List Char) : List Char × List Char := s.span isDigit

/-- A nonempty text of digits only, as a number. -/
def natural? (s : List Char) : Option Nat :=
  if s.isEmpty || s.any (!isDigit ·) then none else some (ofDigits s)

/-- An integer in decimal, with a minus sign where it is negative. -/
def integer : Int → List Char
  | .ofNat n => digits n
  | .negSucc n => '-' :: digits (n + 1)

/-- The value of a hexadecimal digit. -/
def hexValue? (c : Char) : Option Nat :=
  if '0' ≤ c ∧ c ≤ '9' then some (c.toNat - '0'.toNat)
  else if 'a' ≤ c ∧ c ≤ 'f' then some (c.toNat - 'a'.toNat + 10)
  else if 'A' ≤ c ∧ c ≤ 'F' then some (c.toNat - 'A'.toNat + 10)
  else none

/-- A hexadecimal digit in lower case. -/
def hexDigit (n : Nat) : Char :=
  if n < 10 then Char.ofNat ('0'.toNat + n) else Char.ofNat ('a'.toNat + (n - 10))

theorem isDigit_eq (c : Char) : isDigit c = c.isDigit := rfl

/-- A numeral is made of digits. -/
theorem isDigit_of_mem_digits {c : Char} {n : Nat} (h : c ∈ digits n) : isDigit c = true :=
  Nat.isDigit_of_mem_toDigits (by decide) (by decide) h

/-- A numeral is not empty. -/
theorem digits_ne_nil (n : Nat) : digits n ≠ [] := Nat.toDigits_ne_nil

theorem ofDigits_eq (s : List Char) : ofDigits s = Nat.ofDigitChars 10 s 0 := by
  simp only [ofDigits, Nat.ofDigitChars, digitValue, Nat.mul_comm]

/-- A numeral reads back. -/
theorem ofDigits_digits (n : Nat) : ofDigits (digits n) = n := by
  rw [ofDigits_eq, digits, Nat.ofDigitChars_toDigits (by decide) (by decide)]

end TripPlanner.Text
