import TripPlanner.Json.Shape

/-!
# Itineraries

An itinerary is one way to make a trip, as the routing server sent it. The planner looks at whether
it is possible and keeps whether the user has picked it; everything else is carried along.

A server says that an itinerary is possible or, the other way round, impossible; the former counts
where it says both. What it says about the user's pick is dropped.
-/

namespace TripPlanner

open Json

/-- One way to make a trip. -/
structure Itinerary where
  isPossible : Bool
  isSelected : Bool
  /-- Everything else, sorted by name. -/
  others : Members

namespace Itinerary

/-- An itinerary of which nothing else is known. -/
def plain (isPossible : Bool) : Itinerary := ⟨isPossible, false, []⟩

/-- Whether an itinerary is possible, from what a server says. -/
def feasibility (possible impossible : Option Bool) : Bool :=
  (possible.or (impossible.map not)).getD true

/-- The names of the members that are looked at. -/
def names : List String := ["isPossible", "impossible", "isSelected"]

/-- An itinerary as it is read. -/
def shape : Shape Itinerary := fun r t => do
  let (fields, others) ← Fields.named? names r t
  let possible ← fields.optional "isPossible" Shape.bool
  let impossible ← fields.optional "impossible" Shape.bool
  let _ ← fields.optional "isSelected" Shape.bool
  let others ← fields.values? others
  some ⟨feasibility possible impossible, false, others⟩

/-- An itinerary in JSON. -/
def value (i : Itinerary) : Value :=
  .record ([("isPossible", .bool i.isPossible), ("isSelected", .bool i.isSelected)] ++ i.others)

/-- The answer to a route request as it is read: a list of itineraries in order of rank. -/
def answerShape : Shape (List Itinerary) := fun r t => do
  let fields ← Fields.read? ["paths"] r t
  fields.given "paths" shape.list []

/-- The answer to a route request in JSON. -/
def answerValue (paths : List Itinerary) : Value := .record [("paths", .list (paths.map value))]

end Itinerary

end TripPlanner
