import TripPlanner.Json.Value

/-!
# Trees

A tree is the outline of a text that has been read but not yet understood. It is a value except
that members stand as written, a name possibly more than once, and that a leaf may have no value:
a number too large for a binary64, or a string with half of a surrogate pair. Such leaves do no
harm where nobody asks for them.

* `Tree.value?`: the value of a tree without such leaves, if it is not too deep.
* `Tree.ofValue`: a value as a tree.
-/

namespace TripPlanner.Json

/-- The outline of a text. -/
inductive Tree where
  | null
  | bool (value : Bool)
  /-- A number, unless it is out of range. -/
  | number (value : Option Number)
  /-- A string, unless it holds half of a surrogate pair. -/
  | text (value : Option String)
  | list (items : List Tree)
  | record (members : List (Option String × Tree))
  deriving Repr

namespace Tree

mutual

/-- The value of a tree that opens at most `depth` levels. -/
def value? (depth : Nat) : Tree → Option Value
  | .null => some .null
  | .bool b => some (.bool b)
  | .number n => n.map .number
  | .text s => s.map .text
  | .list items =>
    match depth with
    | 0 => none
    | inner + 1 => (values? inner items).map .list
  | .record members =>
    match depth with
    | 0 => none
    | inner + 1 => (members? inner members).map fun ms => .record ms.sorted

/-- The values of items. -/
def values? (depth : Nat) : List Tree → Option (List Value)
  | [] => some []
  | item :: rest => do
    let v ← value? depth item
    let vs ← values? depth rest
    some (v :: vs)

/-- The values of members, in the order in which they stand. -/
def members? (depth : Nat) : List (Option String × Tree) → Option Members
  | [] => some []
  | (name, member) :: rest => do
    let key ← name
    let v ← value? depth member
    let vs ← members? depth rest
    some ((key, v) :: vs)

end

mutual

/-- A value as a tree. -/
def ofValue : Value → Tree
  | .null => .null
  | .bool b => .bool b
  | .number n => .number (some n)
  | .text s => .text (some s)
  | .list items => .list (ofValues items)
  | .record members => .record (ofMembers members)

/-- Items as trees. -/
def ofValues : List Value → List Tree
  | [] => []
  | item :: rest => ofValue item :: ofValues rest

/-- Members as trees. -/
def ofMembers : List (String × Value) → List (Option String × Tree)
  | [] => []
  | (name, member) :: rest => (some name, ofValue member) :: ofMembers rest

end

end Tree

end TripPlanner.Json
