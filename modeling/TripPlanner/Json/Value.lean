import TripPlanner.Binary64.Basic

/-!
# Values

A value is what a JSON text stands for. Records keep their members in the order in which they are
to be written; the members that the planner only carries along are kept sorted by name, each name
once (`Value.insert`).
-/

namespace TripPlanner.Json

/-- A number keeps whether it was written without fraction and exponent. -/
inductive Number where
  | integer (value : Int)
  | real (value : Binary64)
  deriving DecidableEq, Repr

/-- What a JSON text stands for. -/
inductive Value where
  | null
  | bool (value : Bool)
  | number (value : Number)
  | text (value : String)
  | list (items : List Value)
  | record (members : List (String × Value))
  deriving Repr

/-- Members of a record, in order. -/
abbrev Members := List (String × Value)

/-- A value set among members that are sorted by name; the last value set for a name counts. -/
def Members.insert (name : String) (value : Value) : Members → Members
  | [] => [(name, value)]
  | (other, old) :: rest =>
    if name < other then (name, value) :: (other, old) :: rest
    else if name = other then (name, value) :: rest
    else (other, old) :: Members.insert name value rest

/-- Members sorted by name, where the last value of a name counts. -/
def Members.sorted (members : Members) : Members :=
  members.foldl (fun sorted member => Members.insert member.1 member.2 sorted) []

/-- The number nearest to a number's value. -/
def Number.toBinary64 : Number → Binary64
  | .integer value => .ofInt value
  | .real value => value

namespace Value

/-- A real number as a value. -/
def real (x : Binary64) : Value := .number (.real x)

/-- A value that may be missing, written as null. -/
def optional {α : Type} (toValue : α → Value) : Option α → Value
  | some a => toValue a
  | none => .null

end Value

end TripPlanner.Json
