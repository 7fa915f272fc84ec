import TripPlanner.Binary64.Reader
import TripPlanner.Json.Tree
import TripPlanner.Text.Split
import TripPlanner.Time.Date
import TripPlanner.Word

/-!
# Numbers, truth values and dates of TOML

Digits may be grouped by single underscores. Integers may be written in base ten, without leading
zeros, and in base sixteen, eight or two after a mark. A number with a fraction or an exponent has
digits on both sides of its point. Dates and times are checked and otherwise not looked at: they
stand as records that hold nothing anyone asks for.

* `Scalar.tree?`: what a run of characters stands for.
-/

namespace TripPlanner.Toml.Scalar

open Text Json

/-- The digits of a numeral whose groups are joined by single underscores. -/
def grouped? (isDigit : Char → Bool) (s : List Char) : Option (List Char) :=
  let groups := splitAt '_' s
  if groups.any (·.isEmpty) || groups.any (·.any (!isDigit ·)) then none else some groups.flatten

/-- Digits without a needless zero before them. -/
def isTight : List Char → Bool
  | '0' :: _ :: _ => false
  | _ => true

/-- The natural number that digits of a base write. -/
def inBase (base : Nat) (ds : List Char) : Nat :=
  ds.foldl (fun n c => n * base + (hexValue? c).getD 0) 0

/-- Whether a character is a digit of a base. -/
def isDigitOf (base : Nat) (c : Char) : Bool :=
  match hexValue? c with
  | some d => d < base
  | none => false

/-- The integer that a text writes. -/
def integer? (s : List Char) : Option Int :=
  match s with
  | '0' :: 'x' :: rest => (grouped? (isDigitOf 16) rest).map fun ds => (inBase 16 ds : Int)
  | '0' :: 'o' :: rest => (grouped? (isDigitOf 8) rest).map fun ds => (inBase 8 ds : Int)
  | '0' :: 'b' :: rest => (grouped? (isDigitOf 2) rest).map fun ds => (inBase 2 ds : Int)
  | s => do
    let (negative, body) := Binary64.signed s
    let ds ← grouped? isDigit body
    if isTight ds then some (if negative then -(ofDigits ds : Int) else ofDigits ds) else none

/-- An integer as a tree; one that sixty-four bits do not hold has no value there, and one that a
hundred and twenty-eight bits do not hold is refused. -/
def integerTree? (i : Int) : Option Tree :=
  if Word.fitsSigned 64 i || Word.fitsUnsigned 64 i then some (.number (some (.integer i)))
  else if Word.fitsSigned 128 i || Word.fitsUnsigned 128 i then some (.number none)
  else none

/-- The part of a number before its exponent: digits, and possibly a point and more digits. -/
def mantissa? (s : List Char) : Option (List Char) := do
  let (negative, body) := Binary64.signed s
  let sign := if negative then ['-'] else []
  match splitAt '.' body with
  | [whole] => do
    let ds ← grouped? isDigit whole
    if isTight ds then some (sign ++ ds) else none
  | [whole, part] => do
    let ds ← grouped? isDigit whole
    let more ← grouped? isDigit part
    if isTight ds then some (sign ++ ds ++ '.' :: more) else none
  | _ => none

/-- The exponent of a number after its mark. -/
def exponent? (s : List Char) : Option (List Char) := do
  let (negative, body) := Binary64.signed s
  let ds ← grouped? isDigit body
  some ('e' :: (if negative then '-' :: ds else ds))

/-- The number with a fraction or an exponent that a text writes; it has to be in range. -/
def real? (s : List Char) : Option Binary64 :=
  if ["inf", "+inf", "-inf", "nan", "+nan", "-nan"].contains (String.ofList s) then
    Binary64.ofText? s
  else do
    let plain ← match split (fun c => c == 'e' || c == 'E') s with
      | [m] => mantissa? m
      | [m, e] => do
        let m ← mantissa? m
        let e ← exponent? e
        some (m ++ e)
      | _ => none
    let x ← Binary64.ofText? plain
    if x.isFinite then some x else none

/-- A number of exactly some digits that is at most a limit. -/
def field? (width limit : Nat) (s : List Char) : Option Nat :=
  if s.length = width then (natural? s).bind fun n => if n ≤ limit then some n else none else none

/-- Whether a text is a date. -/
def isDate (s : List Char) : Bool :=
  match splitAt '-' s with
  | [y, m, d] =>
    match field? 4 9999 y, field? 2 12 m, field? 2 31 d with
    | some year, some month, some day => 1 ≤ day && day ≤ Time.daysIn year month
    | _, _, _ => false
  | _ => false

/-- Whether a text is a time of day; its seconds may be left out. -/
def isTime (s : List Char) : Bool :=
  match splitAt ':' s with
  | [h, m] => (field? 2 23 h).isSome && (field? 2 59 m).isSome
  | [h, m, rest] =>
    let isSecond := match splitAt '.' rest with
      | [whole] => (field? 2 60 whole).isSome
      | [whole, part] => (field? 2 60 whole).isSome && (natural? part).isSome
      | _ => false
    (field? 2 23 h).isSome && (field? 2 59 m).isSome && isSecond
  | _ => false

/-- Whether a text is a time of day, possibly with its distance from universal time. -/
def isZonedTime (s : List Char) : Bool :=
  let clock := s.takeWhile fun c => isDigit c || c == ':' || c == '.'
  isTime clock && match s.drop clock.length with
    | [] => true
    | [c] => c == 'Z' || c == 'z'
    | c :: rest =>
      (c == '+' || c == '-') && match splitAt ':' rest with
        | [h, m] => (field? 2 23 h).isSome && (field? 2 59 m).isSome
        | _ => false

/-- Whether a text is a date, a time of day, or both. -/
def isMoment (s : List Char) : Bool :=
  isDate s || isTime s ||
    (isDate (s.take 10) && match s.drop 10 with
      | c :: rest => (c == 'T' || c == 't' || c == ' ') && isZonedTime rest
      | [] => false)

/-- A date or a time as a tree. -/
def moment (s : List Char) : Tree := .record [(some "moment", .text (some (String.ofList s)))]

/-- What a run of characters stands for. -/
def tree? (s : List Char) : Option Tree :=
  if s = "true".toList then some (.bool true)
  else if s = "false".toList then some (.bool false)
  else match integer? s with
    | some i => integerTree? i
    | none =>
      match real? s with
      | some x => some (.number (some (.real x)))
      | none => if isMoment s then some (moment s) else none

/-- Whether a character may stand in such a run. -/
def isPart (c : Char) : Bool :=
  isDigit c || ('a' ≤ c && c ≤ 'z') || ('A' ≤ c && c ≤ 'Z') || c == '_' || c == '+' || c == '-' ||
    c == '.' || c == ':'

/-- The run that a text begins with, and what follows it. A single blank joins a date to a time. -/
def run (s : List Char) : List Char × List Char :=
  let first := s.takeWhile isPart
  match s.drop first.length with
  | ' ' :: d :: rest =>
    if isDate first && isDigit d then
      let second := (d :: rest).takeWhile isPart
      (first ++ ' ' :: second, (d :: rest).drop second.length)
    else (first, ' ' :: d :: rest)
  | rest => (first, rest)

end TripPlanner.Toml.Scalar
