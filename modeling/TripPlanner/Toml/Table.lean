import TripPlanner.Json.Tree

/-!
# Tables of TOML

A document fills a table step by step, and no name is given a value twice. Which tables may still
be added to depends on how they came to be: by a header of their own, on the way to the table of
another header, or by keys joined with points.

* `Table.set?`: a value under keys.
* `Table.open?`, `Table.append?`: the table of a header, and one more table of a list of tables.
-/

namespace TripPlanner.Toml

open Json

/-- How a table came to be. -/
inductive Origin where
  /-- By a header of its own. -/
  | header
  /-- On the way to the table of another header. -/
  | passage
  /-- By keys joined with points. -/
  | points
  deriving DecidableEq, Repr

/-- What a name stands for. -/
inductive Node where
  /-- A value that is complete. -/
  | leaf (value : Tree)
  | table (origin : Origin) (entries : List (String × Node))
  /-- A list of tables, the latest one first. -/
  | tables (items : List (List (String × Node)))

/-- The entries of a table. -/
abbrev Table := List (String × Node)

namespace Node

mutual

/-- What a name stands for, once the document is complete. -/
def tree : Node → Tree
  | .leaf value => value
  | .table _ entries => .record (members entries)
  | .tables items => .list (records items).reverse

/-- Entries as members. -/
def members : List (String × Node) → List (Option String × Tree)
  | [] => []
  | (name, node) :: rest => (some name, tree node) :: members rest

/-- Tables as records. -/
def records : List (List (String × Node)) → List Tree
  | [] => []
  | entries :: rest => .record (members entries) :: records rest

end

end Node

namespace Table

/-- A table with what `f` makes of a name. -/
def modify? (name : String) (f : Option Node → Option Node) : Table → Option Table
  | [] => (f none).map fun node => [(name, node)]
  | (other, node) :: rest =>
    if other = name then (f (some node)).map fun node => (other, node) :: rest
    else (modify? name f rest).map ((other, node) :: ·)

/-- A table with a value under keys. The tables on the way must not have a header of their own, and
the last of them has to come from such keys as well. -/
def set? (value : Tree) : List String → Table → Option Table
  | [], _ => none
  | [name], t => modify? name (fun node => if node.isSome then none else some (.leaf value)) t
  | name :: next :: names, t =>
    modify? name (fun node =>
      match node with
      | none => (set? value (next :: names) []).map (.table .points)
      | some (.table .header _) => none
      | some (.table .passage entries) =>
        if names.isEmpty then none
        else (set? value (next :: names) entries).map (.table .passage)
      | some (.table .points entries) =>
        (set? value (next :: names) entries).map (.table .points)
      | some _ => none) t

/-- A table with a change to the table that names lead to; tables that are missing on the way are
made, and of a list of tables the latest is meant. -/
def within? (f : Table → Option Table) : List String → Table → Option Table
  | [], t => f t
  | name :: names, t =>
    modify? name (fun node =>
      match node with
      | none => (within? f names []).map (.table .passage)
      | some (.table origin entries) => (within? f names entries).map (.table origin)
      | some (.tables (latest :: items)) =>
        (within? f names latest).map fun latest => .tables (latest :: items)
      | some _ => none) t

/-- A table with the table of a header; it may have been passed before, but not had a header. -/
def open? (path : List String) (name : String) (t : Table) : Option Table :=
  within? (modify? name fun node =>
    match node with
    | none => some (.table .header [])
    | some (.table .passage entries) => some (.table .header entries)
    | some _ => none) path t

/-- A table with one more table of a list of tables. -/
def append? (path : List String) (name : String) (t : Table) : Option Table :=
  within? (modify? name fun node =>
    match node with
    | none => some (.tables [[]])
    | some (.tables items) => some (.tables ([] :: items))
    | some _ => none) path t

/-- A table as a tree. -/
def tree (t : Table) : Tree := .record (Node.members t)

end Table

end TripPlanner.Toml
