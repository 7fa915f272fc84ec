import TripPlanner.Json.Tree
import TripPlanner.Json.Numeral

/-!
# Reading JSON

`Tree.ofText?` reads a text as the outline of one JSON value with nothing but blanks around it. It
checks the grammar only: what a tree says about leaves without a value and about depth is left to
those who ask for a value.
-/

namespace TripPlanner.Json

open Text

/-- The blanks of JSON. -/
def isSpace (c : Char) : Bool := c == ' ' || c == '\t' || c == '\n' || c == '\r'

/-- A text without the blanks it starts with. -/
def skip (s : List Char) : List Char := s.dropWhile isSpace

/-- The value of four hexadecimal digits. -/
def hex4? (a b c d : Char) : Option Nat := do
  let a ← hexValue? a
  let b ← hexValue? b
  let c ← hexValue? c
  let d ← hexValue? d
  some (((a * 16 + b) * 16 + c) * 16 + d)

/-- The character behind a backslash, other than `u`. -/
def unescape? : Char → Option Char
  | '"' => some '"'
  | '\\' => some '\\'
  | '/' => some '/'
  | 'b' => some '\x08'
  | 'f' => some '\x0C'
  | 'n' => some '\n'
  | 'r' => some '\r'
  | 't' => some '\t'
  | _ => none

/-- The code units of a string up to its closing quote, and what follows that. Escapes by number
may give halves of a surrogate pair; all else is a code point. -/
def codes? : List Char → Option (List Nat × List Char)
  | [] => none
  | '"' :: rest => some ([], rest)
  | '\\' :: 'u' :: a :: b :: c :: d :: rest => do
    let code ← hex4? a b c d
    let (codes, after) ← codes? rest
    some (code :: codes, after)
  | '\\' :: e :: rest => do
    let c ← unescape? e
    let (codes, after) ← codes? rest
    some (c.toNat :: codes, after)
  | c :: rest =>
    if c = '\\' ∨ c.toNat < 0x20 then none
    else do
      let (codes, after) ← codes? rest
      some (c.toNat :: codes, after)

/-- Whether a code is the first half of a surrogate pair. -/
def isHigh (code : Nat) : Bool := 0xD800 ≤ code && code < 0xDC00

/-- Whether a code is the second half of a surrogate pair. -/
def isLow (code : Nat) : Bool := 0xDC00 ≤ code && code < 0xE000

/-- The characters of codes, where surrogates stand in pairs. -/
def join? : List Nat → Option (List Char)
  | [] => some []
  | high :: low :: rest =>
    if isHigh high then
      if isLow low then
        (join? rest).map (Char.ofNat (0x10000 + (high - 0xD800) * 0x400 + (low - 0xDC00)) :: ·)
      else none
    else if isLow high then none
    else (join? (low :: rest)).map (Char.ofNat high :: ·)
  | [code] => if isHigh code || isLow code then none else some [Char.ofNat code]

/-- A string after its opening quote, and what follows it. -/
def string? (s : List Char) : Option (Option String × List Char) :=
  (codes? s).map fun (codes, rest) => ((join? codes).map String.ofList, rest)

namespace Tree

mutual

/-- The value that a text begins with, blanks before it aside. -/
def read? : Nat → List Char → Option (Tree × List Char)
  | 0, _ => none
  | fuel + 1, s =>
    match skip s with
    | '"' :: rest => (string? rest).map fun (s, after) => (.text s, after)
    | '[' :: rest =>
      match skip rest with
      | ']' :: after => some (.list [], after)
      | rest => (items? fuel rest).map fun (items, after) => (.list items, after)
    | '\x7b' :: rest =>
      match skip rest with
      | '\x7d' :: after => some (.record [], after)
      | rest => (entries? fuel rest).map fun (members, after) => (.record members, after)
    | 'n' :: 'u' :: 'l' :: 'l' :: rest => some (.null, rest)
    | 't' :: 'r' :: 'u' :: 'e' :: rest => some (.bool true, rest)
    | 'f' :: 'a' :: 'l' :: 's' :: 'e' :: rest => some (.bool false, rest)
    | rest => (Numeral.read? rest).map fun (numeral, after) => (.number numeral.number?, after)

/-- The items of a list up to its end; there is at least one. -/
def items? : Nat → List Char → Option (List Tree × List Char)
  | 0, _ => none
  | fuel + 1, s => do
    let (item, rest) ← read? fuel s
    match skip rest with
    | ',' :: rest => do
      let (items, after) ← items? fuel rest
      some (item :: items, after)
    | ']' :: after => some ([item], after)
    | _ => none

/-- The members of a record up to its end; there is at least one. -/
def entries? : Nat → List Char → Option (List (Option String × Tree) × List Char)
  | 0, _ => none
  | fuel + 1, s =>
    match skip s with
    | '"' :: rest => do
      let (name, rest) ← string? rest
      match skip rest with
      | ':' :: rest => do
        let (member, rest) ← read? fuel rest
        match skip rest with
        | ',' :: rest => do
          let (members, after) ← entries? fuel rest
          some ((name, member) :: members, after)
        | '\x7d' :: after => some ([(name, member)], after)
        | _ => none
      | _ => none
    | _ => none

end

/-- The outline of a text that holds one value and blanks around it. Every second step of reading
takes a character, so twice the length of the text is fuel enough. -/
def ofText? (s : List Char) : Option Tree := do
  let (tree, rest) ← read? (2 * s.length + 2) s
  if (skip rest).isEmpty then some tree else none

end Tree

end TripPlanner.Json
