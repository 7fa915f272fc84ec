import TripPlanner.Time.Instant
import TripPlanner.Text.Blank

/-!
# Reading instants

An instant is written as a date, a time of day and the distance of that clock from universal time.
The reader is generous: numbers need not have leading zeros, white space may stand before numbers
and around the marks between them, and years may have a sign and any number of digits.

* `Instant.ofText?`: the instant that a text writes.
-/

namespace TripPlanner

namespace Time

open Text

/-- A number of at least one digit, and at most `width` where a width is given. -/
def number? (width : Option Nat) (s : List Char) : Option (Nat × List Char) :=
  let ds := match width with
    | some n => (s.take n).takeWhile isDigit
    | none => s.takeWhile isDigit
  if ds.isEmpty then none else some (ofDigits ds, s.drop ds.length)

/-- A given character. -/
def mark? (c : Char) : List Char → Option (List Char)
  | d :: rest => if d = c then some rest else none
  | [] => none

/-- A year: up to four digits, or a sign and any number of digits. -/
def year? : List Char → Option (Int × List Char)
  | '-' :: rest => (number? none rest).map fun (n, s) => (-(n : Int), s)
  | '+' :: rest => (number? none rest).map fun (n, s) => ((n : Int), s)
  | s => (number? (some 4) s).map fun (n, s) => ((n : Int), s)

/-- One or two digits after white space. -/
def twoDigits? (s : List Char) : Option (Nat × List Char) := number? (some 2) (trimStart s)

/-- Year, month and day with dashes between them. -/
def date? (s : List Char) : Option ((Int × Nat × Nat) × List Char) := do
  let (year, s) ← year? (trimStart s)
  let s ← mark? '-' (trimStart s)
  let (month, s) ← twoDigits? s
  let s ← mark? '-' (trimStart s)
  let (day, s) ← twoDigits? s
  some ((year, month, day), s)

/-- Hour, minute and second with colons between them. -/
def clock? (s : List Char) : Option ((Nat × Nat × Nat) × List Char) := do
  let (hour, s) ← twoDigits? s
  let s ← mark? ':' (trimStart s)
  let (minute, s) ← twoDigits? s
  let s ← mark? ':' (trimStart s)
  let (second, s) ← twoDigits? s
  some ((hour, minute, second), s)

/-- The nanoseconds after a point, if there is one; digits after the ninth do not count. -/
def nanoseconds? : List Char → Option (Nat × List Char)
  | '.' :: rest =>
    let ds := rest.takeWhile isDigit
    let counted := ds.take 9
    if ds.isEmpty then none
    else some (ofDigits counted * Nat.pow 10 (9 - counted.length), rest.drop ds.length)
  | s => some (0, s)

/-- Two digits of an offset: hours, then after colons and white space the minutes. -/
def offsetMinutes? (s : List Char) : Option (Nat × List Char) := do
  let h₁ :: h₂ :: s := s | none
  let m₁ :: m₂ :: s := s.dropWhile (fun c => c == ':' || isBlank c) | none
  if [h₁, h₂, m₁, m₂].all isDigit && digitValue m₁ < 6 then
    some (ofDigits [h₁, h₂] * 60 + ofDigits [m₁, m₂], s)
  else none

/-- The distance of a clock from universal time, in minutes. -/
def offset? (s : List Char) : Option (Int × List Char) :=
  if (s.take 3).map Char.toUpper = ['U', 'T', 'C'] then some (0, s.drop 3)
  else match s with
    | [] => none
    | c :: rest =>
      if c = 'Z' ∨ c = 'z' then some (0, rest)
      else if c = '+' then (offsetMinutes? rest).map fun (n, s) => ((n : Int), s)
      else if c = '-' ∨ c = Char.ofNat 0x2212 then
        (offsetMinutes? rest).map fun (n, s) => (-(n : Int), s)
      else none

/-- The second of the day and the nanoseconds of a time of day; second sixty is a leap second. -/
def secondOfDay? (hour minute second nanos : Nat) : Option (Nat × Nat) :=
  if hour < 24 ∧ minute < 60 ∧ second ≤ 60 then
    let base := hour * 3600 + minute * 60
    if second = 60 then some (base + 59, nanos + 1000000000) else some (base + second, nanos)
  else none

/-- The instant at which a clock that is ahead of universal time by some minutes shows a second of
a date. Clocks are less than a day ahead or behind. -/
def atOffset? (date : Date) (second nanos : Nat) (ahead : Int) : Option Instant := do
  let universal : Int := second - ahead * 60
  let day ←
    if ahead ≤ -1440 ∨ 1440 ≤ ahead then none
    else if universal < 0 then date.previous?
    else if universal < 86400 then some date
    else date.next?
  if h : nanos < 2000000000 then
    some ⟨day, ⟨(universal % 86400).toNat, by omega⟩, ⟨nanos, h⟩⟩
  else none

end Time

open Time Text in
/-- The instant that a text writes. -/
def Instant.ofText? (s : String) : Option Instant := do
  let ((year, month, day), s) ← date? s.toList
  let separator :: s := s | none
  let ((hour, minute, second), s) ←
    if separator = 'T' ∨ separator = 't' ∨ separator = ' ' then clock? s else none
  let (nanos, s) ← nanoseconds? s
  let (ahead, s) ← offset? (trimStart s)
  let date ← Date.of? year month day
  let (second, nanos) ← secondOfDay? hour minute second nanos
  if (trimStart s).isEmpty then atOffset? date second nanos ahead else none

end TripPlanner
