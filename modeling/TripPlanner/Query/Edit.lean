import TripPlanner.Query.Basic

/-!
# Edits

An edit changes some fields of a query and leaves the others alone. Endpoints and the auxiliary
distance may also be cleared. A value that a link could not give back is not accepted; the field
then stays as it is, and the other fields of the edit are not affected.

* `Query.apply`: a query after an edit, and what the edit changed.
* `Rule.profile`, `Rule.weight`, `Rule.endpoint`: which values are accepted.
-/

namespace TripPlanner

/-- New values for some fields of a query. -/
structure Edit where
  origin : Option (Option Coordinate) := none
  destination : Option (Option Coordinate) := none
  time : Option Instant := none
  timeMode : Option TimeMode := none
  accessProfile : Option String := none
  egressProfile : Option String := none
  accessWeight : Option Binary64 := none
  egressWeight : Option Binary64 := none
  rangeQuery : Option Bool := none
  rangeSpan : Option TimeSpan := none
  streetLimit : Option TimeSpan := none
  ignoreTransfers : Option Bool := none
  auxiliaryDistance : Option (Option Binary64) := none
  deriving DecidableEq

namespace Edit

/-- Whether an edit has no new value. -/
def isEmpty (e : Edit) : Bool := e = {}

/-- Both endpoints are set. -/
def endpoints (origin destination : Coordinate) : Edit where
  origin := some (some origin)
  destination := some (some destination)

/-- The destination is set or cleared. -/
def toDestination (destination : Option Coordinate) : Edit where
  destination := some destination

/-- The auxiliary distance is set or cleared. -/
def toDistance (distance : Option Binary64) : Edit where
  auxiliaryDistance := some distance

end Edit

namespace Rule

/-- Why a value is not accepted. -/
inductive Refusal where
  | emptyProfile
  | notWeight (value : Binary64)
  deriving DecidableEq, Repr

/-- The wording of a refusal. -/
def Refusal.message : Refusal → String
  | .emptyProfile => "profile name must not be empty"
  | .notWeight value => "'" ++ value.display ++ "' must be a non-negative number"

/-- The name of a profile is not blank; it counts without the white space around it. -/
def profile (s : String) : Except Refusal String :=
  let name := Text.trimmed s
  if name.isEmpty then .error .emptyProfile else .ok name

/-- A weight is finite and not negative. -/
def weight (x : Binary64) : Except Refusal Binary64 :=
  if x.isFinite && Binary64.zero.atMost x then .ok x else .error (.notWeight x)

/-- An endpoint is cleared or lies on the globe. -/
def endpoint : Option Coordinate → Except Malformed (Option Coordinate)
  | none => .ok none
  | some c => (Coordinate.checked c.lat c.lon).map some

/-- The value that a rule makes of a new value, if it accepts it. -/
def accepted {ε α β : Type} (rule : α → Except ε β) (new : Option α) : Option β :=
  new.bind fun a => (rule a).toOption

end Rule

/-- Which fields an edit changed: those that the routing server is told, and the auxiliary
distance. -/
structure Change where
  routing : Bool
  auxiliary : Bool
  deriving DecidableEq, Repr

/-- Whether an edit changed anything. -/
def Change.any (c : Change) : Bool := c.routing || c.auxiliary

/-- Whether two optional values are both missing or the same. -/
def sameOption {α : Type} (same : α → α → Bool) : Option α → Option α → Bool
  | none, none => true
  | some a, some b => same a b
  | _, _ => false

/-- A field after an edit, and whether that changed it. A value that is the same as the old one
leaves the old one in place. -/
def assign {α : Type} (same : α → α → Bool) (old : α) : Option α → α × Bool
  | none => (old, false)
  | some new => if same new old then (old, false) else (new, true)

namespace Query

/-- A query after an edit, and what the edit changed. -/
def apply (q : Query) (e : Edit) : Query × Change :=
  let place := sameOption Coordinate.same
  let (origin, c₁) := assign place q.origin (Rule.accepted Rule.endpoint e.origin)
  let (destination, c₂) := assign place q.destination (Rule.accepted Rule.endpoint e.destination)
  let (time, c₃) := assign (· == ·) q.time (e.time.map Instant.wholeSecond)
  let (timeMode, c₄) := assign (· == ·) q.timeMode e.timeMode
  let (accessProfile, c₅) :=
    assign (· == ·) q.accessProfile (Rule.accepted Rule.profile e.accessProfile)
  let (egressProfile, c₆) :=
    assign (· == ·) q.egressProfile (Rule.accepted Rule.profile e.egressProfile)
  let (accessWeight, c₇) :=
    assign Binary64.same q.accessWeight (Rule.accepted Rule.weight e.accessWeight)
  let (egressWeight, c₈) :=
    assign Binary64.same q.egressWeight (Rule.accepted Rule.weight e.egressWeight)
  let (rangeQuery, c₉) := assign (· == ·) q.rangeQuery e.rangeQuery
  let (rangeSpan, c₁₀) := assign (· == ·) q.rangeSpan e.rangeSpan
  let (streetLimit, c₁₁) := assign (· == ·) q.streetLimit e.streetLimit
  let (ignoreTransfers, c₁₂) := assign (· == ·) q.ignoreTransfers e.ignoreTransfers
  let (auxiliaryDistance, auxiliary) :=
    assign (sameOption Binary64.same) q.auxiliaryDistance e.auxiliaryDistance
  ({ origin, destination, time, timeMode, accessProfile, egressProfile, accessWeight, egressWeight,
     rangeQuery, rangeSpan, streetLimit, ignoreTransfers, auxiliaryDistance },
    ⟨c₁ || c₂ || c₃ || c₄ || c₅ || c₆ || c₇ || c₈ || c₉ || c₁₀ || c₁₁ || c₁₂, auxiliary⟩)

/-- A query after some edits in a row. -/
def applyAll (q : Query) (edits : List Edit) : Query :=
  edits.foldl (fun q e => (q.apply e).1) q

end Query

end TripPlanner
