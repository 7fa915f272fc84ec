/-!
# Binary64 numbers

The finite numbers of one sign are counted in increasing order, from zero: the *rank* of a number.
A rank is the exponent and fraction of the usual format read as a single natural number, so every
rank below `ranks` is a number, no number has two forms, and comparing numbers is comparing ranks.
Every finite number is a multiple of the least positive one, its *unit*.

* `rankOfRatio`: the rank of the number nearest to a quotient, a tie going to the even rank.
* `units`: how many units a rank is worth.
-/

namespace TripPlanner

/-- How many finite numbers each sign has. -/
def Binary64.ranks : Nat := 2047 * Nat.pow 2 52

/-- A binary64 number; zero has a sign, and there is one value that is not a number. -/
inductive Binary64 where
  | finite (negative : Bool) (rank : Fin Binary64.ranks)
  | infinite (negative : Bool)
  | nan
  deriving DecidableEq, Repr

namespace Binary64

/-- How many units make one. -/
def one : Nat := Nat.pow 2 1074

/-- How many units a rank is worth. -/
def units (rank : Nat) : Nat :=
  let shift := rank / Nat.pow 2 52 - 1
  (rank - shift * Nat.pow 2 52) * Nat.pow 2 shift

/-- The natural number nearest to a quotient; a tie goes to the even one. -/
def roundToEven (num den : Nat) : Nat :=
  let quotient := num / den
  let remainder := num % den
  if 2 * remainder < den then quotient
  else if den < 2 * remainder then quotient + 1
  else quotient + quotient % 2

/-- The rank of the number nearest to a quotient; it is `ranks` or more where that is infinite.
The quotient is counted in units, and as many of its binary digits as leave fifty-three are
rounded away. A carry out of the fifty-three moves to the next exponent by itself. -/
def rankOfRatio (num den : Nat) : Nat :=
  let scaled := num * one
  let shift := (scaled / den).log2 - 52
  shift * Nat.pow 2 52 + roundToEven scaled (den * Nat.pow 2 shift)

/-- The number of a rank, infinite beyond the last one. -/
def ofRank (negative : Bool) (rank : Nat) : Binary64 :=
  if h : rank < ranks then .finite negative ⟨rank, h⟩ else .infinite negative

/-- The number nearest to a quotient with a sign. -/
def ofRatio (negative : Bool) (num den : Nat) : Binary64 :=
  ofRank negative (rankOfRatio num den)

/-- The number nearest to an integer. -/
def ofInt (i : Int) : Binary64 := ofRatio (i < 0) i.natAbs 1

/-- Zero without a minus sign. -/
def zero : Binary64 := .ofRank false 0

/-- Whether a number is neither infinite nor not a number. -/
def isFinite : Binary64 → Bool
  | .finite _ _ => true
  | _ => false

/-- The number with the sign changed. -/
def negate : Binary64 → Binary64
  | .finite negative rank => .finite (!negative) rank
  | .infinite negative => .infinite (!negative)
  | .nan => .nan

/-- The place of a number in the order of numbers; the two zeros share theirs. -/
def place : Binary64 → Option Int
  | .finite negative rank => some (if negative then -(rank : Int) else rank)
  | .infinite negative => some (if negative then -(ranks : Int) else ranks)
  | .nan => none

/-- Equality of numbers: the two zeros are equal, and what is not a number equals nothing. -/
def same (x y : Binary64) : Bool :=
  match x.place, y.place with
  | some i, some j => i == j
  | _, _ => false

/-- The strict order of numbers. -/
def less (x y : Binary64) : Bool :=
  match x.place, y.place with
  | some i, some j => i < j
  | _, _ => false

/-- The order of numbers. -/
def atMost (x y : Binary64) : Bool :=
  match x.place, y.place with
  | some i, some j => i ≤ j
  | _, _ => false

/-- A finite number times a natural number's nearest number, rounded once; other values stay. -/
def times (x : Binary64) (factor : Nat) : Binary64 :=
  match x with
  | .finite negative rank =>
    ofRatio negative (units rank * units (rankOfRatio factor 1)) (one * one)
  | x => x

/-- A finite number divided by a natural number's nearest number, rounded once; other values
stay. -/
def dividedBy (x : Binary64) (divisor : Nat) : Binary64 :=
  match x with
  | .finite negative rank => ofRatio negative (units rank) (units (rankOfRatio divisor 1))
  | x => x

end Binary64

end TripPlanner
