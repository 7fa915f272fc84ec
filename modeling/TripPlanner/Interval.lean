import TripPlanner.Text.Blank
import TripPlanner.Text.Digits
import TripPlanner.Word

/-!
# Intervals

An interval is a length of time in nanoseconds. It is written in amounts of the units from years
down to nanoseconds, as in `1h 30m`; a month has 30.44 days and a year 365.25. Reading is more
generous than writing: amounts may come in any order, a unit has several names, an amount may have
a fraction where that fraction is a whole number of the unit's ticks, and white space may stand
almost anywhere. A single `0` is an interval too.

* `Interval.text`: the writing of an interval.
* `Interval.ofText?`: the interval that a text writes.
-/

namespace TripPlanner

/-- How many nanoseconds make a second. -/
def Interval.secondTicks : Nat := 1000000000

/-- The first number of seconds that is too large for an interval. -/
def Interval.secondsEnd : Nat := Word.values 64

/-- A length of time in nanoseconds. -/
structure Interval where
  nanos : Fin (Interval.secondsEnd * Interval.secondTicks)
  deriving DecidableEq

namespace Interval

open Text

/-- An amount of a unit; an amount of zero is left out. -/
def amount (unit : String) (n : Nat) : List (List Char) :=
  if n = 0 then [] else [digits n ++ unit.toList]

/-- An amount of a unit whose name is a word. -/
def counted (unit : String) (n : Nat) : List (List Char) :=
  amount (if n = 1 then unit else unit ++ "s") n

/-- The amounts of an interval from the largest unit to the smallest. -/
def amounts (i : Interval) : List (List Char) :=
  let seconds := i.nanos.val / secondTicks
  let nanos := i.nanos.val % secondTicks
  let inYear := seconds % 31557600
  let inMonth := inYear % 2630016
  let inDay := inMonth % 86400
  counted "year" (seconds / 31557600) ++ counted "month" (inYear / 2630016) ++
    counted "day" (inMonth / 86400) ++ amount "h" (inDay / 3600) ++
    amount "m" (inDay % 3600 / 60) ++ amount "s" (inDay % 60) ++
    amount "ms" (nanos / 1000000) ++ amount "us" (nanos / 1000 % 1000) ++ amount "ns" (nanos % 1000)

/-- The writing of an interval. -/
def text (i : Interval) : String :=
  if i.nanos.val = 0 then "0s" else String.ofList ([' '].intercalate i.amounts)

/-- A unit of time: how many ticks it has, and how many ticks make a second. Units of a minute or
less tick in nanoseconds, but whole seconds and minutes are counted in seconds; longer units tick
in seconds. -/
structure TimeUnit where
  /-- The unit in seconds, or in nanoseconds where it is shorter than a second. -/
  whole : Nat
  /-- Whether a whole number of units is counted in seconds. -/
  inSeconds : Bool
  /-- The ticks of which a fraction of the unit has to be a whole number; nothing is finer than a
  nanosecond. -/
  ticks : Option Nat
  /-- Whether these ticks are seconds. -/
  ticksInSeconds : Bool

/-- The units by their names. -/
def unit? (name : List Char) : Option TimeUnit :=
  let is (names : List String) : Bool := names.contains (String.ofList name)
  if is ["ns", "nsec", "nanos"] then some ⟨1, false, none, false⟩
  else if is ["us", "usec", "µs"] then some ⟨1000, false, some 1000, false⟩
  else if is ["ms", "msec", "millis"] then some ⟨1000000, false, some 1000000, false⟩
  else if is ["s", "sec", "secs", "second", "seconds"] then some ⟨1, true, some 1000000000, false⟩
  else if is ["m", "min", "mins", "minute", "minutes"] then
    some ⟨60, true, some 60000000000, false⟩
  else if is ["h", "hr", "hrs", "hour", "hours"] then some ⟨3600, true, some 3600, true⟩
  else if is ["d", "day", "days"] then some ⟨86400, true, some 86400, true⟩
  else if is ["w", "wk", "wks", "week", "weeks"] then some ⟨604800, true, some 604800, true⟩
  else if is ["M", "month", "months"] then some ⟨2630016, true, some 2630016, true⟩
  else if is ["y", "yr", "yrs", "year", "years"] then some ⟨31557600, true, some 31557600, true⟩
  else none

/-- A number that fits into sixty-four bits. -/
def fitting (n : Nat) : Option Nat := if n < Word.values 64 then some n else none

/-- An interval in nanoseconds with further seconds or nanoseconds added, if it stays in range. -/
def add? (total : Nat) (inSeconds : Bool) (n : Nat) : Option Nat := do
  let n ← fitting n
  if inSeconds then
    if total + n * secondTicks < secondsEnd * secondTicks then some (total + n * secondTicks)
    else none
  else do
    let _ ← fitting (total % secondTicks + n)
    if total + n < secondsEnd * secondTicks then some (total + n) else none

/-- Whether a character can be part of a unit's name. -/
def isUnitLetter (c : Char) : Bool :=
  ('a' ≤ c && c ≤ 'z') || ('A' ≤ c && c ≤ 'Z') || c == 'µ'

/-- A fraction: its digits as a number, and the power of ten that they are to be divided by. -/
structure Fraction where
  numerator : Nat
  denominator : Nat

/-- The rest of a fraction, up to the name of the unit. -/
def fraction? (f : Fraction) : List Char → Option (Fraction × List Char)
  | [] => some (f, [])
  | c :: rest =>
    if isDigit c then do
      let d ← fitting (f.denominator * 10)
      let n ← fitting (f.numerator * 10 + digitValue c)
      fraction? ⟨n, d⟩ rest
    else if isBlank c then fraction? f rest
    else if isUnitLetter c then some (f, c :: rest)
    else none

/-- The rest of an amount whose digits so far write `n`, up to the name of the unit. -/
def number? (n : Nat) : List Char → Option (Nat × Option Fraction × List Char)
  | [] => some (n, none, [])
  | c :: rest =>
    if isDigit c then (fitting (n * 10 + digitValue c)).bind fun n => number? n rest
    else if isBlank c then number? n rest
    else if isUnitLetter c then some (n, none, c :: rest)
    else if c = '.' then do
      let (f, rest) ← fraction? ⟨0, 1⟩ rest
      if f.denominator = 1 then none else some (n, some f, rest)
    else none

/-- An interval in nanoseconds with a fraction of a unit added. -/
def addFraction? (total : Nat) (u : TimeUnit) : Option Fraction → Option Nat
  | none => some total
  | some f => do
    let ticks ← u.ticks
    let scaled ← fitting (f.numerator * ticks)
    if scaled % f.denominator = 0 then add? total u.ticksInSeconds (scaled / f.denominator)
    else none

/-- The nanoseconds of the amounts that are still to be read, added to a total. Every amount begins
with a digit, so `fuel` may be the length of the text. -/
def sum? (fuel total : Nat) (s : List Char) : Option Nat :=
  match fuel, trimStart s with
  | _, [] => some total
  | 0, _ => none
  | fuel + 1, c :: rest => do
    let (n, f, rest) ← if isDigit c then number? (digitValue c) rest else none
    let u ← unit? (rest.takeWhile isUnitLetter)
    let total ← add? total u.inSeconds (n * u.whole)
    let total ← addFraction? total u f
    sum? fuel total (rest.dropWhile isUnitLetter)

/-- The interval that a text writes. -/
def ofText? (s : List Char) : Option Interval := do
  let total ←
    if s = ['0'] then some 0
    else if (trimStart s).isEmpty then none
    else sum? s.length 0 s
  if h : total < secondsEnd * secondTicks then some ⟨⟨total, h⟩⟩ else none

end Interval

end TripPlanner
