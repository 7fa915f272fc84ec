import TripPlanner.Json.Shape

/-!
# Names of alternatives

Settings with a few alternatives give each of them a name of words joined by underscores, which is
used in JSON, configuration files and messages. On the command line the words are joined by
hyphens.
-/

namespace TripPlanner

/-- A type of named alternatives. -/
class Named (α : Type) where
  /-- The alternatives. -/
  all : List α
  /-- The name of an alternative. -/
  name : α → String

namespace Named

variable {α : Type} [Named α]

/-- The alternatives with their names. -/
def table (α : Type) [Named α] : List (String × α) := (all (α := α)).map fun a => (name a, a)

/-- The name of an alternative on the command line. -/
def optionName (a : α) : String :=
  String.ofList ((name a).toList.map fun c => if c = '_' then '-' else c)

/-- The alternative of a name on the command line, where the case of letters may be ignored. -/
def ofOption? (ignoreCase : Bool) (s : String) : Option α :=
  (all (α := α)).find? fun a =>
    if ignoreCase then (optionName a).toLower == s.toLower else optionName a == s

/-- How an alternative is read from JSON and configuration files. -/
def shape (α : Type) [Named α] : Json.Shape α := Json.Shape.choice (table α)

/-- An alternative in JSON. -/
def value (a : α) : Json.Value := .text (name a)

end Named

end TripPlanner
