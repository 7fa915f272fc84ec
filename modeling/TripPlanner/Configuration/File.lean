import TripPlanner.Configuration.Document
import TripPlanner.Text.Utf8
import TripPlanner.Toml.Reader

/-!
# Configuration files

A configuration is kept in a file, in TOML or in JSON by the ending of the file's name. A file has
to be readable, to be UTF-8, and to hold a configuration that passes its check.

* `Configuration.ofFile`: the configuration of a file.
-/

namespace TripPlanner

open Json

/-- TOML has no null: an empty list or table stands for nothing. -/
def Toml.reading : Reading where
  depth := 1000
  isNothing := fun t => match t with
    | .list [] => true
    | .record [] => true
    | _ => false
  allowsSurplus := true

namespace Configuration

/-- The configuration that a TOML document holds. -/
def ofToml? (s : String) : Option Configuration := (Toml.tree? s.toList).bind (shape Toml.reading)

/-- The configuration that a JSON text holds. -/
def ofJson? (s : String) : Option Configuration := Json.read? shape s

/-- The configuration of a file by what is in it. -/
def ofContent (file content : String) : Except Problem Configuration :=
  let decoded (c : Option Configuration) : Except Problem Configuration :=
    match c with
    | some c => .ok c
    | none => .error (.undecodable file)
  if file.endsWith ".toml" then decoded (ofToml? content)
  else if file.endsWith ".json" then decoded (ofJson? content)
  else .error (.unknownFormat file)

/-- The text of a file's octets. -/
def textOf (file : String) : Option (List UInt8) → Except Problem String
  | none => .error (.unreadable file "No such file or directory (os error 2)")
  | some octets =>
    let text := Text.Utf8.decode octets
    if Text.Utf8.encode text = octets then .ok (String.ofList text)
    else .error (.unreadable file "stream did not contain valid UTF-8")

/-- The configuration of a file, given the file's octets if there is such a file. -/
def ofFile (file : String) (octets : Option (List UInt8)) : Except Problem Configuration := do
  let content ← textOf file octets
  let c ← ofContent file content
  c.check
  return c

end Configuration

end TripPlanner
