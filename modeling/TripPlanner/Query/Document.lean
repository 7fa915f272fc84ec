import TripPlanner.Query.Edit

/-!
# Queries and edits in JSON

Queries and edits are records with the same thirteen names (`Query.names`). In an edit a missing
member leaves its field alone. A null does so too, except for the endpoints and the auxiliary
distance, which it clears. A query has all its members.

* `Query.value`, `Query.shape`: a query written and read.
* `Edit.value`, `Edit.shape`: an edit written and read.
-/

namespace TripPlanner

open Json

/-- An instant as it is read. -/
def Instant.shape : Shape Instant := Shape.text.refine Instant.ofText?

/-- An instant in JSON. -/
def Instant.value (t : Instant) : Value := .text t.toFraction

/-- A time span as it is read. -/
def TimeSpan.shape : Shape TimeSpan := Shape.text.refine fun s => (TimeSpan.ofText s).toOption

/-- A time span in JSON. -/
def TimeSpan.value (d : TimeSpan) : Value := .text d.text

namespace Query

/-- The names of the members, in order. -/
def names : List String :=
  ["origin", "destination", "departure_or_arrival_time", "time_mode", "access_profile",
    "egress_profile", "beta_access_time", "beta_egress_time", "range_query",
    "range_query_duration", "limit_street_time", "ignore_transfers", "auxiliary_distance"]

/-- A query in JSON. -/
def value (q : Query) : Value :=
  .record
    [("origin", .optional Coordinate.value q.origin),
      ("destination", .optional Coordinate.value q.destination),
      ("departure_or_arrival_time", q.time.value),
      ("time_mode", Named.value q.timeMode),
      ("access_profile", .text q.accessProfile),
      ("egress_profile", .text q.egressProfile),
      ("beta_access_time", .real q.accessWeight),
      ("beta_egress_time", .real q.egressWeight),
      ("range_query", .bool q.rangeQuery),
      ("range_query_duration", q.rangeSpan.value),
      ("limit_street_time", q.streetLimit.value),
      ("ignore_transfers", .bool q.ignoreTransfers),
      ("auxiliary_distance", .optional .real q.auxiliaryDistance)]

/-- A query as it is read. -/
def shape : Shape Query := fun r t => do
  let fields ← Fields.read? names r t
  let origin ← fields.optional "origin" Coordinate.shape
  let destination ← fields.optional "destination" Coordinate.shape
  let time ← fields.required "departure_or_arrival_time" Instant.shape
  let timeMode ← fields.required "time_mode" (Named.shape TimeMode)
  let accessProfile ← fields.required "access_profile" Shape.text
  let egressProfile ← fields.required "egress_profile" Shape.text
  let accessWeight ← fields.required "beta_access_time" Shape.number
  let egressWeight ← fields.required "beta_egress_time" Shape.number
  let rangeQuery ← fields.required "range_query" Shape.bool
  let rangeSpan ← fields.required "range_query_duration" TimeSpan.shape
  let streetLimit ← fields.required "limit_street_time" TimeSpan.shape
  let ignoreTransfers ← fields.required "ignore_transfers" Shape.bool
  let auxiliaryDistance ← fields.optional "auxiliary_distance" Shape.number
  some
    { origin, destination, time, timeMode, accessProfile, egressProfile, accessWeight,
      egressWeight, rangeQuery, rangeSpan, streetLimit, ignoreTransfers, auxiliaryDistance }

end Query

namespace Edit

/-- The member of a new value, if there is one. -/
def member {α : Type} (name : String) (toValue : α → Value) : Option α → Members
  | some new => [(name, toValue new)]
  | none => []

/-- An edit in JSON. -/
def value (e : Edit) : Value :=
  .record
    (member "origin" (.optional Coordinate.value) e.origin ++
      member "destination" (.optional Coordinate.value) e.destination ++
      member "departure_or_arrival_time" Instant.value e.time ++
      member "time_mode" Named.value e.timeMode ++
      member "access_profile" .text e.accessProfile ++
      member "egress_profile" .text e.egressProfile ++
      member "beta_access_time" .real e.accessWeight ++
      member "beta_egress_time" .real e.egressWeight ++
      member "range_query" .bool e.rangeQuery ++
      member "range_query_duration" TimeSpan.value e.rangeSpan ++
      member "limit_street_time" TimeSpan.value e.streetLimit ++
      member "ignore_transfers" .bool e.ignoreTransfers ++
      member "auxiliary_distance" (.optional .real) e.auxiliaryDistance)

/-- A new value, or null to leave the field alone. -/
def setting {α : Type} (fields : Fields) (name : String) (shape : Shape α) : Option (Option α) :=
  fields.given name shape.optional none

/-- A new value, or null to clear the field. -/
def clearing {α : Type} (fields : Fields) (name : String) (shape : Shape α) :
    Option (Option (Option α)) :=
  fields.given name (shape.optional.refine fun new => some (some new)) none

/-- An edit as it is read. -/
def shape : Shape Edit := fun r t => do
  let fields ← Fields.read? Query.names r t
  let origin ← clearing fields "origin" Coordinate.shape
  let destination ← clearing fields "destination" Coordinate.shape
  let time ← setting fields "departure_or_arrival_time" Instant.shape
  let timeMode ← setting fields "time_mode" (Named.shape TimeMode)
  let accessProfile ← setting fields "access_profile" Shape.text
  let egressProfile ← setting fields "egress_profile" Shape.text
  let accessWeight ← setting fields "beta_access_time" Shape.number
  let egressWeight ← setting fields "beta_egress_time" Shape.number
  let rangeQuery ← setting fields "range_query" Shape.bool
  let rangeSpan ← setting fields "range_query_duration" TimeSpan.shape
  let streetLimit ← setting fields "limit_street_time" TimeSpan.shape
  let ignoreTransfers ← setting fields "ignore_transfers" Shape.bool
  let auxiliaryDistance ← clearing fields "auxiliary_distance" Shape.number
  some
    { origin, destination, time, timeMode, accessProfile, egressProfile, accessWeight,
      egressWeight, rangeQuery, rangeSpan, streetLimit, ignoreTransfers, auxiliaryDistance }

end Edit

end TripPlanner
