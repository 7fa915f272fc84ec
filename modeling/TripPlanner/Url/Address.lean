import TripPlanner.Url.Percent
import TripPlanner.Text.Digits
import TripPlanner.Text.Split

/-!
# Network addresses as hosts

A host may be an address: four octets written with points between them, or eight groups of sixteen
bits in hexadecimal with colons between them. The longest run of at least two zero groups is left
out in writing, the first of several equally long ones.

* `Ipv4.isNumeric`: whether a host has to be an address of four octets.
* `Ipv4.read?`, `Ipv6.read?`: the address that a host writes.
* `Ipv4.write`, `Ipv6.write`: an address as a host.
-/

namespace TripPlanner.Url

open Text Percent

namespace Ipv4

/-- The digits of a numeral in base ten, or with its mark in base eight or sixteen. -/
def radix : List Char → Nat × List Char
  | '0' :: 'x' :: rest => (16, rest)
  | '0' :: 'X' :: rest => (16, rest)
  | '0' :: c :: rest => (8, c :: rest)
  | s => (10, s)

/-- The number that a part of an address writes; a bare mark writes zero. -/
def number? (s : List Char) : Option Nat :=
  if s.isEmpty then none
  else
    let (base, ds) := radix s
    ds.foldlM (fun n c => do
      let d ← hexValue? c
      if d < base then some (n * base + d) else none) 0

/-- The parts of an address; a point at the end adds none. -/
def parts (s : List Char) : List (List Char) :=
  let ps := splitAt '.' s
  if ps.getLast? = some [] then ps.dropLast else ps

/-- A host whose last part is a number has to be an address. -/
def isNumeric (s : List Char) : Bool :=
  match (parts s).getLast? with
  | some last => (!last.isEmpty && last.all isDigit) || (number? last).isSome
  | none => false

/-- The address whose last part is `last`, the parts before it being octets. -/
def join? (before : List Nat) (last : Nat) : Option Nat :=
  let room := Nat.pow 256 (4 - before.length)
  if before.any (256 ≤ ·) || room ≤ last then none
  else some (before.foldl (fun n octet => n * 256 + octet) 0 * room + last)

/-- The address that a host writes. The last part fills all octets that are left. -/
def read? (s : List Char) : Option Nat := do
  let numbers ← (parts s).mapM number?
  if 4 < numbers.length then none
  else
    let last ← numbers.getLast?
    join? numbers.dropLast last

/-- An address as a host. -/
def write (n : Nat) : List Char :=
  ['.'].intercalate ([3, 2, 1, 0].map fun place => digits (n / Nat.pow 256 place % 256))

end Ipv4

namespace Ipv6

/-- The groups of an address as far as they have been read: before and, where a run of zeros has
been left out, after it. -/
structure Groups where
  before : List Nat
  after : Option (List Nat)

/-- A further group. -/
def Groups.push (g : Groups) (n : Nat) : Groups :=
  match g.after with
  | some groups => { g with after := some (groups ++ [n]) }
  | none => { g with before := g.before ++ [n] }

/-- How many of the eight places are taken; a run that was left out takes one. -/
def Groups.taken (g : Groups) : Nat :=
  match g.after with
  | some groups => g.before.length + 1 + groups.length
  | none => g.before.length

/-- An octet without leading zeros. -/
def octet? (s : List Char) : Option Nat :=
  match s with
  | '0' :: _ :: _ => none
  | _ => (natural? s).bind fun n => if n < 256 then some n else none

/-- The last two groups, written as four octets with points between them. -/
def dotted? (g : Groups) (s : List Char) : Option Groups :=
  if 6 < g.taken then none
  else do
    let [a, b, c, d] ← (splitAt '.' s).mapM octet? | none
    some ((g.push (a * 256 + b)).push (c * 256 + d))

/-- The value of a group of at most four hexadecimal digits, and what follows it. -/
def group (s : List Char) : Nat × List Char :=
  let ds := (s.take 4).takeWhile fun c => (hexValue? c).isSome
  (ds.foldl (fun n c => n * 16 + (hexValue? c).getD 0) 0, s.drop ds.length)

/-- The rest of an address. Every round reads at least one character, so `fuel` may be the length
of the text. -/
def rest? : Nat → Groups → List Char → Option Groups
  | _, g, [] => some g
  | 0, _, _ => none
  | fuel + 1, g, s@(c :: afterColon) =>
    if g.taken = 8 then none
    else if c = ':' then
      if g.after.isSome then none else rest? fuel { g with after := some [] } afterColon
    else
      let (n, after) := group s
      match after with
      | [] => if (hexValue? c).isSome then some (g.push n) else none
      | '.' :: _ => if (hexValue? c).isSome then dotted? g s else none
      | ':' :: more => if more.isEmpty then none else rest? fuel (g.push n) more
      | _ => none

/-- The eight groups of an address whose left out run has to fill it up. -/
def Groups.fill? (g : Groups) : Option (List Nat) :=
  match g.after with
  | some groups =>
    if g.taken ≤ 8 then
      some (g.before ++ List.replicate (8 - g.before.length - groups.length) 0 ++ groups)
    else none
  | none => if g.before.length = 8 then some g.before else none

/-- The eight groups that an address without its brackets writes. -/
def read? (s : List Char) : Option (List Nat) :=
  match s with
  | ':' :: ':' :: rest => (rest? rest.length ⟨[], some []⟩ rest).bind Groups.fill?
  | ':' :: _ => none
  | [] => none
  | [_] => none
  | s => (rest? s.length ⟨[], none⟩ s).bind Groups.fill?

/-- A group in hexadecimal, in lower case and without leading zeros. -/
def writeGroup (n : Nat) : List Char := Nat.toDigits 16 n

/-- How many zeros groups begin with. -/
def zeros (groups : List Nat) : Nat := (groups.takeWhile (· = 0)).length

/-- Where the longest run of zeros begins, and its length; the first one of several. -/
def longestRun (groups : List Nat) : Nat × Nat :=
  (List.range 8).foldl (fun best start =>
    let length := zeros (groups.drop start)
    if best.2 < length then (start, length) else best) (0, 0)

/-- Groups with colons between them. -/
def writeGroups (groups : List Nat) : List Char := [':'].intercalate (groups.map writeGroup)

/-- An address as a host, with its brackets. -/
def write (groups : List Nat) : List Char :=
  let (start, length) := longestRun groups
  '[' :: ((if length < 2 then writeGroups groups
    else writeGroups (groups.take start) ++ ':' :: ':' ::
      writeGroups (groups.drop (start + length))) ++ [']'])

end Ipv6

end TripPlanner.Url
