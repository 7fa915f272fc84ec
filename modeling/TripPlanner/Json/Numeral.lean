import TripPlanner.Binary64.Reader
import TripPlanner.Json.Value
import TripPlanner.Word

/-!
# Numerals

A numeral without fraction and exponent that fits sixty-four bits is that integer. Any other
numeral is read in two steps, each of which rounds: its leading digits, as many as fit sixty-four
bits, give a number, and this is multiplied or divided by a power of ten that is itself rounded. The
result is not always the number nearest to the numeral. A numeral beyond all numbers has no value.
-/

namespace TripPlanner.Json

open Text

/-- The parts of a numeral as written: digits before the point, after it, and the exponent. -/
structure Numeral where
  negative : Bool
  whole : List Char
  fraction : List Char
  exponent : Option Int
  deriving DecidableEq, Repr

namespace Numeral

/-- Digits that may begin a numeral: at least one, and no zero before another digit. -/
def isWhole : List Char → Bool
  | [] => false
  | '0' :: _ :: _ => false
  | _ => true

/-- The fraction of a numeral, with what follows it; a point without a digit is no numeral. -/
def fraction? : List Char → Option (List Char × List Char)
  | '.' :: rest =>
    let (ds, rest) := spanDigits rest
    if ds.isEmpty then none else some (ds, rest)
  | rest => some ([], rest)

/-- The exponent of a numeral, with what follows it; a mark without a digit is no numeral. -/
def exponent? : List Char → Option (Option Int × List Char)
  | [] => some (none, [])
  | c :: rest =>
    if c = 'e' ∨ c = 'E' then
      let (negative, unsigned) := Binary64.signed rest
      let (ds, after) := spanDigits unsigned
      if ds.isEmpty then none
      else some (some (if negative then -(ofDigits ds : Int) else ofDigits ds), after)
    else some (none, c :: rest)

/-- A minus sign and what follows it. -/
def minus : List Char → Bool × List Char
  | '-' :: rest => (true, rest)
  | rest => (false, rest)

/-- The numeral that a text begins with. -/
def read? (s : List Char) : Option (Numeral × List Char) :=
  let (negative, unsigned) := minus s
  let (whole, afterWhole) := spanDigits unsigned
  if isWhole whole then do
    let (fraction, afterFraction) ← fraction? afterWhole
    let (exponent, rest) ← exponent? afterFraction
    some (⟨negative, whole, fraction, exponent⟩, rest)
  else none

/-- A number of at most sixty-four bits extended by as many digits as fit, and how many do. -/
def absorb (significand : Nat) : List Char → Nat × Nat
  | [] => (significand, 0)
  | c :: rest =>
    let next := significand * 10 + digitValue c
    if next < Word.values 64 then
      let (result, count) := absorb next rest
      (result, count + 1)
    else (significand, 0)

/-- A number times a power of ten, in steps of at most 308 places; an infinite result is none. -/
def scale? (x : Binary64) (exponent : Int) : Option Binary64 :=
  if x.same .zero then some x
  else if 308 < exponent then none
  else if 0 ≤ exponent then
    let y := x.times (Nat.pow 10 exponent.toNat)
    if y.isFinite then some y else none
  else if h : exponent < -308 then scale? (x.dividedBy (Nat.pow 10 308)) (exponent + 308)
  else some (x.dividedBy (Nat.pow 10 (-exponent).toNat))
termination_by (-exponent).toNat
decreasing_by omega

/-- The real number of a numeral. -/
def real? (n : Numeral) : Option Binary64 :=
  let (leading, taken) := absorb 0 n.whole
  let (significand, places) := absorb leading n.fraction
  let exponent := (n.whole.length - taken : Int) - places + n.exponent.getD 0
  (scale? (.ofRatio false significand 1) exponent).map
    fun x => if n.negative then x.negate else x

/-- What a numeral stands for. -/
def number? (n : Numeral) : Option Number :=
  let magnitude := ofDigits n.whole
  if n.fraction.isEmpty && n.exponent.isNone && magnitude < Word.values 64 then
    if !n.negative then some (.integer magnitude)
    else if 0 < magnitude ∧ magnitude ≤ Word.values 63 then some (.integer (-(magnitude : Int)))
    else some (.real (Binary64.ofRatio true magnitude 1))
  else n.real?.map .real

end Numeral

end TripPlanner.Json
