import TripPlanner.Text.Blank
import TripPlanner.Text.Split
import TripPlanner.Text.Utf8
import TripPlanner.Url.Punycode

/-!
# Domain names

The name of a host in a URL is brought into one form: letters in lower case, characters that only
differ in width replaced by the usual ones, characters without a look of their own left out, and
every label with characters outside ASCII written in Punycode after `xn--`. A label that already
is in Punycode has to be the writing of such a label.

The letters that are brought into lower case are those of the Latin, Greek and Cyrillic scripts;
other characters stand for themselves.

* `Domain.toAscii?`: the one form of a name, if it may be the name of a host.
-/

namespace TripPlanner.Url.Domain

open Text

/-- Characters without a look of their own. -/
def isIgnored (n : Nat) : Bool :=
  n == 0xAD || n == 0x34F || n == 0x200B || n == 0x2060 || n == 0x2064 || n == 0xFEFF ||
    (0xFE00 ≤ n && n ≤ 0xFE0F) || (0x180B ≤ n && n ≤ 0x180F)

/-- Full stops of other scripts and widths. -/
def isStop (n : Nat) : Bool := n == 0x3002 || n == 0xFF0E || n == 0xFF61

/-- The code of a letter in lower case. -/
def lower (n : Nat) : Nat :=
  if 0x41 ≤ n ∧ n ≤ 0x5A then n + 0x20
  else if 0xC0 ≤ n ∧ n ≤ 0xDE ∧ n ≠ 0xD7 then n + 0x20
  else if 0x100 ≤ n ∧ n ≤ 0x137 ∧ n ≠ 0x130 ∧ n ≠ 0x131 then n + (1 - n % 2)
  else if 0x139 ≤ n ∧ n ≤ 0x148 then n + n % 2
  else if 0x14A ≤ n ∧ n ≤ 0x177 then n + (1 - n % 2)
  else if n = 0x178 then 0xFF
  else if 0x179 ≤ n ∧ n ≤ 0x17E then n + n % 2
  else if 0x391 ≤ n ∧ n ≤ 0x3AB ∧ n ≠ 0x3A2 then n + 0x20
  else if 0x400 ≤ n ∧ n ≤ 0x40F then n + 0x50
  else if 0x410 ≤ n ∧ n ≤ 0x42F then n + 0x20
  else if 0x460 ≤ n ∧ n ≤ 0x481 then n + (1 - n % 2)
  else if 0x48A ≤ n ∧ n ≤ 0x4BF then n + (1 - n % 2)
  else if 0x4D0 ≤ n ∧ n ≤ 0x52F then n + (1 - n % 2)
  else if 0x1E00 ≤ n ∧ n ≤ 0x1E95 then n + (1 - n % 2)
  else if 0x1EA0 ≤ n ∧ n ≤ 0x1EFF then n + (1 - n % 2)
  else n

/-- Characters that no name holds: controls, white space, codes without a character, and the ASCII
characters that have a meaning in URLs. -/
def isForbidden (n : Nat) : Bool :=
  n ≤ 0x20 || (0x7F ≤ n && n ≤ 0x9F) || "%#/:<>?@[\\]^|".toList.any (·.toNat == n) ||
    isBlank (Char.ofNat n) || n == 0x61C || n == 0x180E || (0x200B ≤ n && n ≤ 0x200F) ||
    (0x2028 ≤ n && n ≤ 0x202E) || (0x2061 ≤ n && n ≤ 0x206F) || (0xE000 ≤ n && n ≤ 0xF8FF) ||
    (0xFDD0 ≤ n && n ≤ 0xFDEF) || (0xFFF0 ≤ n && n ≤ 0xFFFF) || 0xE0000 ≤ n ||
    0xFFFE ≤ n % 0x10000

/-- A character of a name in its one form. -/
def fold (c : Char) : List Char :=
  let n := c.toNat
  if isIgnored n then []
  else if isStop n then ['.']
  else if 0xFF01 ≤ n ∧ n ≤ 0xFF5E then [Char.ofNat (lower (n - 0xFEE0))]
  else [Char.ofNat (lower n)]

/-- Whether a label needs no Punycode. -/
def isBasic (label : List Char) : Bool := label.all (·.toNat < 0x80)

/-- A label in ASCII. A label in Punycode has to be the writing of what it stands for. -/
def label? (label : List Char) : Option (List Char) :=
  match label with
  | 'x' :: 'n' :: '-' :: '-' :: code =>
    if isBasic code then do
      let decoded ← Punycode.decode? code
      if !isBasic decoded && decoded.flatMap fold = decoded &&
          !decoded.any (fun c => isForbidden c.toNat) && Punycode.encode decoded = code then
        some label
      else none
    else none
  | _ => some (if isBasic label then label else ['x', 'n', '-', '-'] ++ Punycode.encode label)

/-- The one form of a name given in UTF-8, if it may be the name of a host. -/
def toAscii? (octets : List UInt8) : Option (List Char) := do
  let name := (Utf8.decode octets).flatMap fold
  let labels ←
    if name.any (fun c => isForbidden c.toNat) then none else (splitAt '.' name).mapM label?
  some (['.'].intercalate labels)

end TripPlanner.Url.Domain
