import TripPlanner.Text.Digits

/-!
# Strings and keys of TOML

A string is basic, with escapes between double quotes, or literal, with everything as it stands
between single quotes. Tripled quotes make a string that may go over several lines; a line end
right after the opening quotes is dropped, and two quotes more than the closing three belong to the
string. A key is a run of letters, digits, `-` and `_`, or a string of one line.
-/

namespace TripPlanner.Toml

open Text

/-- Whether a character may stand in a string or a comment; a tab may, other controls may not. -/
def isVisible (c : Char) : Bool := c == '\t' || (0x20 ≤ c.toNat && c.toNat != 0x7F)

/-- The character of a code written in hexadecimal digits. -/
def ofCode? (ds : List Char) : Option Char := do
  let code ← ds.foldlM (fun n c => (hexValue? c).map (n * 16 + ·)) 0
  if code.isValidChar then some (Char.ofNat code) else none

/-- The character behind a backslash, other than those given by a code. -/
def unescape? : Char → Option Char
  | 'b' => some '\x08'
  | 't' => some '\t'
  | 'n' => some '\n'
  | 'e' => some '\x1B'
  | 'f' => some '\x0C'
  | 'r' => some '\r'
  | '"' => some '"'
  | '\\' => some '\\'
  | _ => none

/-- A character before what has been read after it. -/
def before (c : Char) (read : List Char × List Char) : List Char × List Char :=
  (c :: read.1, read.2)

/-- A basic string of one line after its opening quote, and what follows it. -/
def basic? : List Char → Option (List Char × List Char)
  | [] => none
  | '"' :: rest => some ([], rest)
  | '\\' :: 'x' :: a :: b :: rest => do
    let x ← ofCode? [a, b]
    (basic? rest).map (before x)
  | '\\' :: 'u' :: a :: b :: c :: d :: rest => do
    let x ← ofCode? [a, b, c, d]
    (basic? rest).map (before x)
  | '\\' :: 'U' :: a :: b :: c :: d :: e :: f :: g :: h :: rest => do
    let x ← ofCode? [a, b, c, d, e, f, g, h]
    (basic? rest).map (before x)
  | '\\' :: e :: rest => do
    let x ← unescape? e
    (basic? rest).map (before x)
  | c :: rest => if c != '\\' && isVisible c then (basic? rest).map (before c) else none

/-- A literal string of one line after its opening quote, and what follows it. -/
def literal? : List Char → Option (List Char × List Char)
  | [] => none
  | c :: rest =>
    if c = '\'' then some ([], rest)
    else if isVisible c then (literal? rest).map (before c)
    else none

/-- The end of a string of several lines: three quotes after at most two that belong to the
string. -/
def closing? (quote : Char) (s : List Char) : Option (List Char × List Char) :=
  let quotes := ((s.take 5).takeWhile (· = quote)).length
  if quotes < 3 then none else some (List.replicate (quotes - 3) quote, s.drop quotes)

/-- A line end at the start of a text is dropped. -/
def dropLineEnd : List Char → List Char
  | '\n' :: rest => rest
  | '\r' :: '\n' :: rest => rest
  | s => s

/-- Whether a character is a blank within a line. -/
def isBlankInLine (c : Char) : Bool := c == ' ' || c == '\t'

/-- The text after a backslash that stands at the end of a line: blanks and line ends are passed
over. -/
def continued? (s : List Char) : Option (List Char) :=
  let rest := s.dropWhile isBlankInLine
  if (dropLineEnd rest).length < rest.length then
    some (rest.dropWhile fun c => isBlankInLine c || c == '\n' || c == '\r')
  else none

/-- A basic string of several lines after its opening quotes, and what follows it. Every step takes
a character, so `fuel` may be the length of the text. -/
def basicLines? : Nat → List Char → Option (List Char × List Char)
  | 0, _ => none
  | fuel + 1, s =>
    match closing? '"' s, s with
    | some (quotes, rest), _ => some (quotes, rest)
    | none, '\\' :: afterBackslash =>
      match continued? afterBackslash, afterBackslash with
      | some rest, _ => basicLines? fuel rest
      | none, 'x' :: a :: b :: rest => do
        let x ← ofCode? [a, b]
        (basicLines? fuel rest).map (before x)
      | none, 'u' :: a :: b :: c :: d :: rest => do
        let x ← ofCode? [a, b, c, d]
        (basicLines? fuel rest).map (before x)
      | none, 'U' :: a :: b :: c :: d :: e :: f :: g :: h :: rest => do
        let x ← ofCode? [a, b, c, d, e, f, g, h]
        (basicLines? fuel rest).map (before x)
      | none, e :: rest => do
        let x ← unescape? e
        (basicLines? fuel rest).map (before x)
      | none, [] => none
    | none, '\r' :: '\n' :: rest => (basicLines? fuel rest).map (before '\n')
    | none, c :: rest =>
      if c = '\n' || isVisible c then (basicLines? fuel rest).map (before c) else none
    | none, [] => none

/-- A literal string of several lines after its opening quotes, and what follows it. -/
def literalLines? : Nat → List Char → Option (List Char × List Char)
  | 0, _ => none
  | fuel + 1, s =>
    match closing? '\'' s, s with
    | some (quotes, rest), _ => some (quotes, rest)
    | none, '\r' :: '\n' :: rest => (literalLines? fuel rest).map (before '\n')
    | none, c :: rest =>
      if c = '\n' || isVisible c then (literalLines? fuel rest).map (before c) else none
    | none, [] => none

/-- The string that a text begins with, and what follows it. -/
def string? : List Char → Option (List Char × List Char)
  | '"' :: '"' :: '"' :: rest => basicLines? (rest.length + 1) (dropLineEnd rest)
  | '\'' :: '\'' :: '\'' :: rest => literalLines? (rest.length + 1) (dropLineEnd rest)
  | '"' :: rest => basic? rest
  | '\'' :: rest => literal? rest
  | _ => none

/-- Whether a character may stand in a key without quotes. -/
def isBare (c : Char) : Bool :=
  ('a' ≤ c && c ≤ 'z') || ('A' ≤ c && c ≤ 'Z') || isDigit c || c == '-' || c == '_'

/-- A single key, and what follows it. -/
def simpleKey? (s : List Char) : Option (String × List Char) :=
  match s with
  | '"' :: rest => (basic? rest).map fun (name, rest) => (String.ofList name, rest)
  | '\'' :: rest => (literal? rest).map fun (name, rest) => (String.ofList name, rest)
  | s =>
    let name := s.takeWhile isBare
    if name.isEmpty then none else some (String.ofList name, s.drop name.length)

/-- Keys with points between them, blanks around them aside, and what follows them. Every key has a
character, so `fuel` may be the length of the text. -/
def keys? : Nat → List Char → Option (List String × List Char)
  | 0, _ => none
  | fuel + 1, s => do
    let (name, rest) ← simpleKey? (s.dropWhile isBlankInLine)
    match rest.dropWhile isBlankInLine with
    | '.' :: rest => (keys? fuel rest).map fun (names, rest) => (name :: names, rest)
    | rest => some ([name], rest)

end TripPlanner.Toml
