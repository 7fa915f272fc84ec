/-!
# Punycode

A label with characters outside ASCII is written in ASCII as its ASCII characters, a hyphen, and
numerals that say where the other characters stand. The other characters are taken in increasing
order; each numeral counts the steps from one insertion to the next, where a step moves one place
on in the label, or from the last place to the next character code. Numerals have base thirty-six
and end with a digit below a threshold that follows the size of the numerals so far.

* `Punycode.encode`: a label in ASCII.
* `Punycode.decode?`: the label that an ASCII text stands for.
-/

namespace TripPlanner.Url.Punycode

/-- A digit: the letters are zero to twenty-five. -/
def digit (n : Nat) : Char :=
  if n < 26 then Char.ofNat ('a'.toNat + n) else Char.ofNat ('0'.toNat + (n - 26))

/-- The value of a digit; letters count in either case. -/
def digitValue? (c : Char) : Option Nat :=
  if 'a' ≤ c ∧ c ≤ 'z' then some (c.toNat - 'a'.toNat)
  else if 'A' ≤ c ∧ c ≤ 'Z' then some (c.toNat - 'A'.toNat)
  else if '0' ≤ c ∧ c ≤ '9' then some (c.toNat - '0'.toNat + 26)
  else none

/-- The threshold of a place: one, twenty-six, or the distance of the place from the bias between
them. Places are counted in steps of thirty-six, the first one being thirty-six. -/
def threshold (place bias : Nat) : Nat := min 26 (max 1 (place - bias))

theorem one_le_threshold (place bias : Nat) : 1 ≤ threshold place bias := by
  unfold threshold; omega

theorem threshold_le (place bias : Nat) : threshold place bias ≤ 26 := by
  unfold threshold; omega

/-- How often a number can be divided by thirty-five until it is small, counted in steps of
thirty-six, and what is then left of it. -/
def reduce (steps n : Nat) : Nat × Nat :=
  if 455 < n then reduce (steps + 36) (n / 35) else (steps, n)
termination_by n
decreasing_by exact Nat.div_lt_self (by omega) (by decide)

/-- The bias after a numeral of value `delta`, with `count` characters now in place. -/
def adapt (delta count : Nat) (isFirst : Bool) : Nat :=
  let damped := if isFirst then delta / 700 else delta / 2
  let (steps, left) := reduce 0 (damped + damped / count)
  steps + 36 * left / (left + 38)

/-- The numeral of a number. -/
def numeral (bias place n : Nat) : List Char :=
  let t := threshold place bias
  if n < t then [digit n]
  else digit (t + (n - t) % (36 - t)) :: numeral bias (place + 36) ((n - t) / (36 - t))
termination_by n
decreasing_by
  have := one_le_threshold place bias
  exact Nat.lt_of_le_of_lt (Nat.div_le_self _ _) (by omega)

/-- What is known while a label is written. -/
structure Progress where
  text : List Char
  /-- Steps since the last insertion. -/
  delta : Nat
  bias : Nat
  /-- Characters that are in place. -/
  count : Nat
  isFirst : Bool

/-- The place of one character of the label is passed, in the round of the character `code`. -/
def Progress.pass (code : Nat) (p : Progress) (c : Char) : Progress :=
  if c.toNat < code then { p with delta := p.delta + 1 }
  else if c.toNat = code then
    { text := p.text ++ numeral p.bias 36 p.delta
      delta := 0
      bias := adapt p.delta (p.count + 1) p.isFirst
      count := p.count + 1
      isFirst := false }
  else p

/-- The rounds of the characters that are still to be inserted, `next` being the first code that
has had no round yet. -/
def rounds (label : List Char) (next : Nat) (p : Progress) : List Nat → List Char
  | [] => p.text
  | code :: rest =>
    let start := { p with delta := p.delta + (code - next) * (p.count + 1) }
    let done := label.foldl (Progress.pass code) start
    rounds label (code + 1) { done with delta := done.delta + 1 } rest

/-- A label in ASCII. -/
def encode (label : List Char) : List Char :=
  let basic := label.filter (·.toNat < 0x80)
  let codes := ((label.filter (0x80 ≤ ·.toNat)).map Char.toNat).mergeSort.eraseDups
  let text := if basic.isEmpty then [] else basic ++ ['-']
  rounds label 0x80 ⟨text, 0, 72, basic.length, true⟩ codes

/-- The value of a numeral and the text after it. -/
def number? (bias place weight value : Nat) : List Char → Option (Nat × List Char)
  | [] => none
  | c :: rest => do
    let d ← digitValue? c
    let t := threshold place bias
    if d < t then some (value + d * weight, rest)
    else number? bias (place + 36) (weight * (36 - t)) (value + d * weight) rest

/-- The characters of the numerals are inserted into a label. Every numeral has a digit, so `fuel`
may be the length of the text. -/
def insertions? (fuel bias code place : Nat) (isFirst : Bool) (label s : List Char) :
    Option (List Char) :=
  match fuel, s with
  | _, [] => some label
  | 0, _ => none
  | fuel + 1, s => do
    let (delta, rest) ← number? bias 36 1 0 s
    let count := label.length + 1
    let position := place + delta
    let next := code + position / count
    let position := position % count
    if next.isValidChar then
      insertions? fuel (adapt delta count isFirst) next (position + 1) false
        (label.take position ++ Char.ofNat next :: label.drop position) rest
    else none

/-- The label that an ASCII text stands for. -/
def decode? (s : List Char) : Option (List Char) :=
  let tail := (s.reverse.takeWhile (· ≠ '-')).reverse
  let basic := (s.take (s.length - tail.length)).dropLast
  insertions? s.length 72 0x80 0 true basic tail

end TripPlanner.Url.Punycode
