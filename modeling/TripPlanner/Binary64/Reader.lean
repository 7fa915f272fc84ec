import TripPlanner.Binary64.Decimal
import TripPlanner.Text.Digits

/-!
# Numbers read from text

A number is written as an optional sign and either a decimal, with digits before or after its
point and an optional exponent, or one of the words for the values that are not finite, in any
case. Nothing may stand around it. A decimal is read as the number nearest to it.
-/

namespace TripPlanner.Binary64

open Text

/-- The fraction after a decimal's digits, if a point follows them. -/
def fraction : List Char → List Char × List Char
  | '.' :: rest => spanDigits rest
  | rest => ([], rest)

/-- A sign and what follows it; `true` for a minus sign. -/
def signed : List Char → Bool × List Char
  | '-' :: rest => (true, rest)
  | '+' :: rest => (false, rest)
  | rest => (false, rest)

/-- The exponent at the end of a decimal. -/
def exponent? : List Char → Option Int
  | [] => some 0
  | c :: rest =>
    if c = 'e' ∨ c = 'E' then
      (natural? (signed rest).2).map fun n => if (signed rest).1 then -(n : Int) else n
    else none

/-- A decimal without its sign. -/
def decimal? (s : List Char) : Option Decimal :=
  let (whole, afterWhole) := spanDigits s
  let (part, afterPart) := fraction afterWhole
  if whole.isEmpty && part.isEmpty then none
  else
    (exponent? afterPart).map fun e => ⟨ofDigits (whole ++ part), e - part.length⟩

/-- A number without its sign. -/
def unsigned? (negative : Bool) (s : List Char) : Option Binary64 :=
  let word := s.map Char.toLower
  if word = ['i', 'n', 'f'] ∨ word = "infinity".toList then some (.infinite negative)
  else if word = ['n', 'a', 'n'] then some .nan
  else (decimal? s).map (Decimal.toNumber negative)

/-- The number that a text writes. -/
def ofText? (s : List Char) : Option Binary64 := unsigned? (signed s).1 (signed s).2

end TripPlanner.Binary64
