import TripPlanner.Text.Digits
import TripPlanner.Text.Utf8

/-!
# Percent encoding

An octet that may not stand for itself in some part of a URL is written as a percent sign and two
hexadecimal digits. Which ASCII characters may stand for themselves differs from part to part; no
other character ever does.

* `Percent.encode`: a text with all but the admitted characters encoded.
* `Percent.decode`: the octets of a text, its encoded octets decoded.
-/

namespace TripPlanner.Url.Percent

open Text

/-- A hexadecimal digit in upper case. -/
def digit (n : Nat) : Char :=
  if n < 10 then Char.ofNat ('0'.toNat + n) else Char.ofNat ('A'.toNat + (n - 10))

/-- An encoded octet. -/
def octet (b : UInt8) : List Char := ['%', digit (b.toNat / 16), digit (b.toNat % 16)]

/-- A character with its octets encoded. -/
def character (c : Char) : List Char := (Utf8.encodeChar c).flatMap octet

/-- A text with all but the admitted characters encoded. -/
def encode (admitted : Char → Bool) (s : List Char) : List Char :=
  s.flatMap fun c => if admitted c then [c] else character c

/-- The octets of a text. A percent sign without two hexadecimal digits stands for itself. -/
def decode : List Char → List UInt8
  | [] => []
  | '%' :: a :: b :: rest =>
    match hexValue? a, hexValue? b with
    | some m, some n => .ofNat (m * 16 + n) :: decode rest
    | _, _ => .ofNat '%'.toNat :: decode (a :: b :: rest)
  | c :: rest => Utf8.encodeChar c ++ decode rest
termination_by s => s.length
decreasing_by all_goals simp +arith

/-- A printable ASCII character. -/
def isPrintable (c : Char) : Bool := ' ' ≤ c && c ≤ '~'

/-- The admitted characters of a part that excludes some printable ones. -/
def allBut (excluded : List Char) (c : Char) : Bool := isPrintable c && !excluded.contains c

/-- A fragment. -/
def inFragment : Char → Bool := allBut [' ', '"', '<', '>', '\x60']

/-- A path. -/
def inPath : Char → Bool := allBut [' ', '"', '<', '>', '\x60', '#', '?', '\x7b', '\x7d']

/-- A user name or a password. -/
def inUser : Char → Bool :=
  allBut [' ', '"', '<', '>', '\x60', '#', '?', '\x7b', '\x7d', '/', ':', ';', '=', '@', '[', '\\',
    ']', '^', '|']

/-- A query. -/
def inQuery : Char → Bool := allBut [' ', '"', '#', '<', '>']

/-- A query of the schemes of the web. -/
def inWebQuery : Char → Bool := allBut [' ', '"', '#', '<', '>', '\'']

end TripPlanner.Url.Percent
