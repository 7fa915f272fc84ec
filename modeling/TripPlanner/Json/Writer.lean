import TripPlanner.Json.Value
import TripPlanner.Binary64.Layout

/-!
# Writing JSON

Values are written compactly, or with one member or item a line and two blanks of indentation for
each level. Members are written in the order in which they stand. A number that is not finite has
no writing of its own and becomes null.
-/

namespace TripPlanner.Json

open Text

/-- A character inside a string. -/
def escape (c : Char) : List Char :=
  if c = '"' then ['\\', '"']
  else if c = '\\' then ['\\', '\\']
  else if c = '\x08' then ['\\', 'b']
  else if c = '\t' then ['\\', 't']
  else if c = '\n' then ['\\', 'n']
  else if c = '\x0C' then ['\\', 'f']
  else if c = '\r' then ['\\', 'r']
  else if c.toNat < 0x20 then
    ['\\', 'u', '0', '0', hexDigit (c.toNat / 16), hexDigit (c.toNat % 16)]
  else [c]

/-- A string with its quotes. -/
def quoted (s : String) : List Char := '"' :: (s.toList.flatMap escape ++ ['"'])

/-- A number. -/
def Number.write : Number → List Char
  | .integer value => Text.integer value
  | .real value => if value.isFinite then Layout.document.number value else "null".toList

/-- A truth value. -/
def writeBool (b : Bool) : List Char := if b then "true".toList else "false".toList

namespace Value

mutual

/-- The compact text of a value. -/
def write : Value → List Char
  | .null => "null".toList
  | .bool b => writeBool b
  | .number n => n.write
  | .text s => quoted s
  | .list items => '[' :: (writeItems items ++ [']'])
  | .record members => '\x7b' :: (writeMembers members ++ ['\x7d'])

/-- Items with commas between them. -/
def writeItems : List Value → List Char
  | [] => []
  | [item] => write item
  | item :: rest => write item ++ ',' :: writeItems rest

/-- Members with commas between them. -/
def writeMembers : List (String × Value) → List Char
  | [] => []
  | [(name, member)] => quoted name ++ ':' :: write member
  | (name, member) :: rest => quoted name ++ ':' :: (write member ++ ',' :: writeMembers rest)

end

/-- The compact text of a value as a string. -/
def compact (v : Value) : String := String.ofList v.write

/-- A new line at a level. -/
def newLine (level : Nat) : List Char := '\n' :: List.replicate (2 * level) ' '

mutual

/-- The text of a value with indentation, at a level. -/
def indent (level : Nat) : Value → List Char
  | .null => "null".toList
  | .bool b => writeBool b
  | .number n => n.write
  | .text s => quoted s
  | .list [] => ['[', ']']
  | .list items => '[' :: (indentItems (level + 1) items ++ newLine level ++ [']'])
  | .record [] => ['\x7b', '\x7d']
  | .record members =>
    '\x7b' :: (indentMembers (level + 1) members ++ newLine level ++ ['\x7d'])

/-- Items, each on a line. -/
def indentItems (level : Nat) : List Value → List Char
  | [] => []
  | [item] => newLine level ++ indent level item
  | item :: rest => newLine level ++ indent level item ++ ',' :: indentItems level rest

/-- Members, each on a line. -/
def indentMembers (level : Nat) : List (String × Value) → List Char
  | [] => []
  | [(name, member)] => newLine level ++ quoted name ++ ':' :: ' ' :: indent level member
  | (name, member) :: rest =>
    newLine level ++ quoted name ++ ':' :: ' ' :: (indent level member ++
      ',' :: indentMembers level rest)

end

/-- The text of a value with indentation. -/
def pretty (v : Value) : String := String.ofList (v.indent 0)

end Value

end TripPlanner.Json
