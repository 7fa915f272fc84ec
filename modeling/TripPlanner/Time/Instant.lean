import TripPlanner.Time.Date
import TripPlanner.Text.Digits

/-!
# Instants

An instant is a second of a day of universal time and the nanoseconds into that second. A leap
second is counted as further nanoseconds of the second before it, so the nanoseconds of second
fifty-nine may go up to two full seconds.

Links give instants in whole seconds (`Instant.toSeconds`, after `Instant.wholeSecond`); JSON
gives the fraction as well, in as few groups of three digits as it needs
(`Instant.toFraction`).
-/

namespace TripPlanner

/-- A point in universal time. -/
structure Instant where
  date : Time.Date
  /-- The second of the day. -/
  second : Fin 86400
  /-- Nanoseconds into that second. -/
  nanos : Fin 2000000000
  deriving DecidableEq

namespace Instant

open Text

/-- The beginning of the second that an instant lies in; a leap second belongs to the second
before it. -/
def wholeSecond (t : Instant) : Instant := { t with nanos := 0 }

/-- A year: four digits, or a sign and at least four digits where four digits do not do. -/
def yearText (year : Int) : List Char :=
  if 0 ≤ year ∧ year ≤ 9999 then padded 4 year.toNat
  else (if year < 0 then '-' else '+') :: padded 4 year.natAbs

/-- The second of the minute as it is written: a leap second is second sixty. -/
def writtenSecond (t : Instant) : Nat :=
  if t.nanos.val < 1000000000 then t.second.val % 60 else t.second.val % 60 + 1

/-- Date and time of day in whole seconds, without the mark of universal time. -/
def clock (t : Instant) : List Char :=
  yearText t.date.year ++ '-' :: (padded 2 t.date.month ++ '-' :: (padded 2 t.date.day ++
    'T' :: (padded 2 (t.second.val / 3600) ++ ':' :: (padded 2 (t.second.val / 60 % 60) ++
      ':' :: padded 2 t.writtenSecond))))

/-- The fraction of a second in zero, three, six or nine digits. -/
def fractionText (nanos : Nat) : List Char :=
  if nanos = 0 then []
  else if nanos % 1000000 = 0 then '.' :: padded 3 (nanos / 1000000)
  else if nanos % 1000 = 0 then '.' :: padded 6 (nanos / 1000)
  else '.' :: padded 9 nanos

/-- An instant in whole seconds. -/
def toSeconds (t : Instant) : String := String.ofList (t.clock ++ ['Z'])

/-- An instant with its fraction. -/
def toFraction (t : Instant) : String :=
  String.ofList (t.clock ++ (fractionText (t.nanos.val % 1000000000) ++ ['Z']))

end Instant

end TripPlanner
