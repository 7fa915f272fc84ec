import TripPlanner.Url.Percent
import TripPlanner.Text.Split

/-!
# Queries as pairs

A query may hold a list of pairs of a name and a value. Pairs are joined by `&`, name and value by
`=`; a blank is written `+`, and all characters but ASCII letters and digits and `*`, `-`, `.`, `_`
are percent encoded. Reading accepts any query: a pair without `=` has an empty value, empty
stretches between `&` are passed over, and octets that are not UTF-8 are replaced.

* `Form.write`: the query that holds some pairs.
* `Form.read`: the pairs that a query holds.
-/

namespace TripPlanner.Url.Form

open Text

/-- Whether a character stands for itself. -/
def isPlain (c : Char) : Bool :=
  ('0' ≤ c && c ≤ '9') || ('a' ≤ c && c ≤ 'z') || ('A' ≤ c && c ≤ 'Z') || c == '*' || c == '-' ||
    c == '.' || c == '_'

/-- A character of a name or a value. -/
def encodeChar (c : Char) : List Char :=
  if isPlain c then [c] else if c = ' ' then ['+'] else Percent.character c

/-- A name or a value. -/
def encode (s : List Char) : List Char := s.flatMap encodeChar

/-- A name or a value, read. -/
def decode (s : List Char) : List Char :=
  Utf8.decode (Percent.decode (s.map fun c => if c = '+' then ' ' else c))

/-- A pair. -/
def writePair (pair : List Char × List Char) : List Char :=
  encode pair.1 ++ '=' :: encode pair.2

/-- The query that holds some pairs. -/
def write : List (List Char × List Char) → List Char
  | [] => []
  | [pair] => writePair pair
  | pair :: rest => writePair pair ++ '&' :: write rest

/-- A pair, read: the name ends at the first `=`. -/
def readPair (s : List Char) : List Char × List Char :=
  (decode (s.takeWhile (· ≠ '=')), decode ((s.dropWhile (· ≠ '=')).drop 1))

/-- The pairs that a query holds. -/
def read (query : List Char) : List (List Char × List Char) :=
  ((splitAt '&' query).filter (!·.isEmpty)).map readPair

end TripPlanner.Url.Form
