import TripPlanner.Binary64.Basic

/-!
# Decimals and numbers

A decimal is read as the number nearest to it. A number is written as the decimal with the fewest
digits that is read as that number, and of two such decimals the nearer one.

* `Decimal.rank`: the rank that a decimal is read as.
* `shortest`: the decimal that a finite number is written with. Seventeen digits always suffice;
  the exact value stands behind them so that the result reads back by its construction.
-/

namespace TripPlanner

/-- The decimal `digits` times ten to the power `exponent`. -/
structure Decimal where
  digits : Nat
  exponent : Int
  deriving DecidableEq, Repr

namespace Decimal

/-- The decimal as a quotient: numerator. -/
def numerator (d : Decimal) : Nat := d.digits * Nat.pow 10 d.exponent.toNat

/-- The decimal as a quotient: denominator. -/
def denominator (d : Decimal) : Nat := Nat.pow 10 (-d.exponent).toNat

/-- The rank of the number nearest to a decimal. Decimals far outside the range of numbers are
settled by their exponent, so that no power of ten grows with the text it came from. -/
def rank (d : Decimal) : Nat :=
  if d.digits = 0 ∨ d.exponent + (d.digits.log2 + 1 : Nat) < -400 then 0
  else if 400 < d.exponent then Binary64.ranks
  else Binary64.rankOfRatio d.numerator d.denominator

/-- The number that a decimal is read as. -/
def toNumber (negative : Bool) (d : Decimal) : Binary64 := .ofRank negative d.rank

/-- Zeros at the end of a natural number's digits, moved into an exponent. -/
def stripFrom (n : Nat) (exponent : Int) : Decimal :=
  if h : 0 < n ∧ n % 10 = 0 then stripFrom (n / 10) (exponent + 1) else ⟨n, exponent⟩
termination_by n
decreasing_by omega

/-- The same decimal without zeros at the end of its digits. -/
def strip (d : Decimal) : Decimal := stripFrom d.digits d.exponent

end Decimal

namespace Binary64

/-- How many decimal digits a natural number has; zero has none. -/
def decimalLength (n : Nat) : Nat := if n = 0 then 0 else (Nat.toDigits 10 n).length

/-- The exponent of the power of ten just above the value of a rank that is not zero. -/
def magnitude (rank : Nat) : Int := decimalLength (units rank * Nat.pow 10 340 / one) - 340

/-- The decimal just at or below the value of a rank, among the multiples of a power of ten. -/
def below (rank : Nat) (exponent : Int) : Decimal :=
  ⟨units rank * Nat.pow 10 (-exponent).toNat / (one * Nat.pow 10 exponent.toNat), exponent⟩

/-- The decimal just above it. -/
def above (rank : Nat) (exponent : Int) : Decimal :=
  ⟨(below rank exponent).digits + 1, exponent⟩

/-- How the value of a rank lies to the middle of `below` and `above`. -/
def compareMiddle (rank : Nat) (exponent : Int) : Ordering :=
  compare (2 * (units rank * Nat.pow 10 (-exponent).toNat))
    ((2 * (below rank exponent).digits + 1) * (one * Nat.pow 10 exponent.toNat))

/-- A tie between two decimals that are equally near. -/
inductive Tie where
  | even
  | up
  deriving DecidableEq, Repr

/-- Whether the upper one of the two neighbours is to be taken where both are read as the number. -/
def takesAbove (tie : Tie) (rank : Nat) (exponent : Int) : Bool :=
  match compareMiddle rank exponent, tie with
  | .lt, _ => false
  | .gt, _ => true
  | .eq, .up => true
  | .eq, .even => (below rank exponent).digits % 2 == 1

/-- The one of two decimals that is read as the number of a rank, if one of them is. Where both
are, `takesHigh` decides. -/
def readAs? (rank : Nat) (takesHigh : Bool) (low high : Decimal) : Option Decimal :=
  match low.rank == rank, high.rank == rank with
  | true, true => some (if takesHigh then high else low)
  | true, false => some low
  | false, true => some high
  | false, false => none

/-- The decimal of a given number of digits that is read as the number, if there is one. -/
def withDigits? (tie : Tie) (rank count : Nat) : Option Decimal :=
  let exponent := magnitude rank - count
  readAs? rank (takesAbove tie rank exponent) (below rank exponent).strip (above rank exponent).strip

/-- The value of a rank as a decimal with all its digits. -/
def exact (rank : Nat) : Decimal := Decimal.strip ⟨units rank * Nat.pow 5 1074, -1074⟩

/-- The decimal with the fewest digits that is read as the number of a rank. -/
def shortest (tie : Tie) (rank : Nat) : Decimal :=
  if rank = 0 then ⟨0, 0⟩
  else (((List.range 17).map (· + 1)).findSome? (withDigits? tie rank)).getD (exact rank)

end Binary64

end TripPlanner
