import TripPlanner.Json.Reader

/-!
# Shapes

A shape reads a value of some type out of a tree, or refuses the tree. Records are read by the
names of their members: a member that no name asks for is passed over, a known member may stand
only once. A record without members of its own choosing may also be given as a list, in the order
of the names.

* `Shape`: what reads a type.
* `Fields`: the known members of a record that is being read.
-/

namespace TripPlanner.Json

/-- The circumstances of reading. -/
structure Reading where
  /-- How many levels may still be opened. -/
  depth : Nat
  /-- What may stand beside the name of an alternative that carries nothing. -/
  isNothing : Tree → Bool
  /-- Whether a record given as a list may have more items than names; they are then passed over. -/
  allowsSurplus : Bool

/-- What reads a type from a tree. -/
abbrev Shape (α : Type) := Reading → Tree → Option α

/-- The circumstances one level deeper, if there is one. -/
def Reading.inner? (r : Reading) : Option Reading :=
  if r.depth = 0 then none else some { r with depth := r.depth - 1 }

namespace Shape

variable {α β : Type}

/-- A truth value. -/
def bool : Shape Bool
  | _, .bool b => some b
  | _, _ => none

/-- A string. -/
def text : Shape String
  | _, .text s => s
  | _, _ => none

/-- A number, as the binary64 number nearest to it. -/
def number : Shape Binary64
  | _, .number n => n.map Number.toBinary64
  | _, _ => none

/-- An integer that fits. -/
def integer (fits : Int → Bool) : Shape Int
  | _, .number (some (.integer i)) => if fits i then some i else none
  | _, _ => none

/-- Any value. -/
def value : Shape Value := fun r t => t.value? r.depth

/-- A shape, or null. -/
def optional (shape : Shape α) : Shape (Option α)
  | _, .null => some none
  | r, t => (shape r t).map some

/-- A shape whose result has to pass a further reading. -/
def refine (shape : Shape α) (next : α → Option β) : Shape β := fun r t => (shape r t).bind next

/-- The reading of every item of a list. -/
def each (shape : Shape α) (r : Reading) : List Tree → Option (List α)
  | [] => some []
  | t :: rest => do
    let a ← shape r t
    let as ← each shape r rest
    some (a :: as)

/-- A list. -/
def list (shape : Shape α) : Shape (List α)
  | r, .list items => r.inner?.bind fun inner => each shape inner items
  | _, _ => none

/-- One of several names, as a string or as the only member of a record beside nothing. -/
def choice (options : List (String × α)) : Shape α
  | _, .text (some name) => options.lookup name
  | r, .record [(some name, payload)] =>
    r.inner?.bind fun inner => if inner.isNothing payload then options.lookup name else none
  | _, _ => none

end Shape

/-- The known members of a record that is being read. -/
structure Fields where
  known : List (String × Tree)
  /-- Whether the record was given as a list. -/
  positional : Bool
  /-- The circumstances inside the record. -/
  reading : Reading

namespace Fields

variable {α : Type}

/-- The members of a record whose names are all valid. -/
def entries? : List (Option String × Tree) → Option (List (String × Tree))
  | [] => some []
  | (name, member) :: rest => do
    let key ← name
    let others ← entries? rest
    some ((key, member) :: others)

/-- Whether no name stands twice. -/
def distinct : List (String × Tree) → Bool
  | [] => true
  | (name, _) :: rest => (rest.lookup name).isNone && distinct rest

/-- A record by its member names alone, with the members that no name asks for. -/
def named? (names : List String) : Shape (Fields × List (String × Tree))
  | r, .record members => do
    let inner ← r.inner?
    let entries ← entries? members
    let known := entries.filter fun entry => names.contains entry.1
    let others := entries.filter fun entry => !names.contains entry.1
    if distinct known then some (⟨known, false, inner⟩, others) else none
  | _, _ => none

/-- A record, by its member names or as a list that may end early. -/
def read? (names : List String) : Shape Fields
  | r, .list items =>
    if items.length ≤ names.length ∨ r.allowsSurplus then
      r.inner?.map fun inner => ⟨names.zip items, true, inner⟩
    else none
  | r, t => (named? names r t).map (·.1)

/-- A member that has to be there. -/
def required (fields : Fields) (name : String) (shape : Shape α) : Option α :=
  (fields.known.lookup name).bind (shape fields.reading)

/-- A member that may be missing; `missing` then stands for it. -/
def given (fields : Fields) (name : String) (shape : Shape α) (missing : α) : Option α :=
  match fields.known.lookup name with
  | some t => shape fields.reading t
  | none => some missing

/-- A member that may be null, or missing from a record given by names. -/
def optional (fields : Fields) (name : String) (shape : Shape α) : Option (Option α) :=
  match fields.known.lookup name with
  | some t => shape.optional fields.reading t
  | none => if fields.positional then none else some none

/-- The values of further members, sorted by name; the last value of a name counts. -/
def values? (fields : Fields) (others : List (String × Tree)) : Option Members :=
  (Tree.members? fields.reading.depth (others.map fun entry => (some entry.1, entry.2))).map
    Members.sorted

end Fields

/-- JSON texts nest at most 127 levels where they are read, and null carries nothing. -/
def Reading.document : Reading where
  depth := 127
  isNothing := fun t => match t with
    | .null => true
    | _ => false
  allowsSurplus := false

/-- What a JSON text holds, read by a shape. -/
def read? {α : Type} (shape : Shape α) (s : String) : Option α :=
  (Tree.ofText? s.toList).bind (shape .document)

end TripPlanner.Json
