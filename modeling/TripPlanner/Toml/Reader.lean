import TripPlanner.Toml.Quoted
import TripPlanner.Toml.Scalar
import TripPlanner.Toml.Table

/-!
# Reading TOML

A document is a list of lines, each of which gives a value to a name, opens a table by a header, or
is empty; a comment may end it. Lists and tables in braces may go over several lines.

* `Toml.tree?`: what a document holds.
-/

namespace TripPlanner.Toml

open Json

/-- A text without the blanks of its first line. -/
def skipBlanks (s : List Char) : List Char := s.dropWhile isBlankInLine

/-- The text after a comment, if a comment stands here. -/
def skipComment? (s : List Char) : Option (List Char) :=
  match s with
  | '#' :: rest =>
    let after := rest.dropWhile isVisible
    match after with
    | [] | '\n' :: _ | '\r' :: '\n' :: _ => some after
    | _ => none
  | s => some s

/-- The text after blanks, comments and line ends. Every round takes a character, so `fuel` may be
the length of the text. -/
def skipLines? : Nat → List Char → Option (List Char)
  | 0, s => some s
  | fuel + 1, s => do
    let rest ← skipComment? (skipBlanks s)
    match rest with
    | '\n' :: rest => skipLines? fuel rest
    | '\r' :: '\n' :: rest => skipLines? fuel rest
    | rest => some rest

/-- How deep values may nest. -/
def depthLimit : Nat := 80

mutual

/-- The value that a text begins with, and what follows it. -/
def value? : Nat → Nat → List Char → Option (Tree × List Char)
  | 0, _, _ => none
  | fuel + 1, depth, s =>
    match s with
    | '"' :: _ | '\'' :: _ =>
      (string? s).map fun (text, rest) => (.text (some (String.ofList text)), rest)
    | '[' :: rest =>
      if depth = 0 then none
      else (items? fuel (depth - 1) rest).map fun (items, rest) => (.list items, rest)
    | '\x7b' :: rest =>
      if depth = 0 then none
      else (pairs? fuel (depth - 1) [] rest).map fun (t, rest) => (t.tree, rest)
    | s =>
      let (run, rest) := Scalar.run s
      (Scalar.tree? run).map fun value => (value, rest)

/-- The items of a list up to its end. -/
def items? : Nat → Nat → List Char → Option (List Tree × List Char)
  | 0, _, _ => none
  | fuel + 1, depth, s => do
    match ← skipLines? s.length s with
    | ']' :: rest => some ([], rest)
    | s => do
      let (item, rest) ← value? fuel depth s
      match ← skipLines? rest.length rest with
      | ',' :: rest => do
        let (items, rest) ← items? fuel depth rest
        some (item :: items, rest)
      | ']' :: rest => some ([item], rest)
      | _ => none

/-- The pairs of a table in braces up to its end. -/
def pairs? : Nat → Nat → Table → List Char → Option (Table × List Char)
  | 0, _, _, _ => none
  | fuel + 1, depth, t, s => do
    match ← skipLines? s.length s with
    | '\x7d' :: rest => some (t, rest)
    | s => do
      let (names, rest) ← keys? s.length s
      match rest with
      | '=' :: rest => do
        let (value, rest) ← value? fuel depth (skipBlanks rest)
        let t ← t.set? value names
        match ← skipLines? rest.length rest with
        | ',' :: rest => pairs? fuel depth t rest
        | '\x7d' :: rest => some (t, rest)
        | _ => none
      | _ => none

end

/-- A document as far as it has been read. -/
structure Document where
  root : Table
  /-- The names that lead to the table of the latest header. -/
  path : List String

/-- A header after its opening bracket, and what follows it. -/
def header? (d : Document) (s : List Char) : Option (Document × List Char) :=
  match s with
  | '[' :: rest => do
    let (names, rest) ← keys? rest.length rest
    let name ← names.getLast?
    match rest with
    | ']' :: ']' :: rest => do
      let root ← d.root.append? names.dropLast name
      some (⟨root, names⟩, rest)
    | _ => none
  | s => do
    let (names, rest) ← keys? s.length s
    let name ← names.getLast?
    match rest with
    | ']' :: rest => do
      let root ← d.root.open? names.dropLast name
      some (⟨root, names⟩, rest)
    | _ => none

/-- A pair of keys and a value, and what follows it. -/
def pair? (d : Document) (s : List Char) : Option (Document × List Char) := do
  let (names, rest) ← keys? s.length s
  match rest with
  | '=' :: rest => do
    let (value, rest) ← value? (2 * s.length) depthLimit (skipBlanks rest)
    let root ← d.root.within? (Table.set? value names) d.path
    some (⟨root, d.path⟩, rest)
  | _ => none

/-- The rest of a document. Every round takes a character, so `fuel` may be the length of the
text. -/
def lines? : Nat → Document → List Char → Option Document
  | 0, d, s => if s.isEmpty then some d else none
  | fuel + 1, d, s => do
    match ← skipLines? s.length s with
    | [] => some d
    | c :: rest => do
      let (d, rest) ← if c = '[' then header? d rest else pair? d (c :: rest)
      match ← skipComment? (skipBlanks rest) with
      | [] => some d
      | '\n' :: rest => lines? fuel d rest
      | '\r' :: '\n' :: rest => lines? fuel d rest
      | _ => none

/-- What a document holds; it may begin with a byte order mark. -/
def tree? (s : List Char) : Option Tree :=
  let body := match s with
    | c :: rest => if c = Char.ofNat 0xFEFF then rest else s
    | [] => []
  (lines? (body.length + 1) ⟨[], []⟩ body).map fun d => d.root.tree

end TripPlanner.Toml
