import TripPlanner.Coordinate
import TripPlanner.Named
import TripPlanner.Time.Reader
import TripPlanner.TimeSpan

/-!
# Queries

A query says what trip is wanted: from where to where, at what time, and under which settings. It
starts from default settings (`Query.start`) and is changed by edits only, see
`TripPlanner.Query.Edit`.
-/

namespace TripPlanner

/-- How the time of a query is meant. -/
inductive TimeMode where
  /-- The time is the earliest departure. -/
  | departure
  /-- The time is the latest arrival. -/
  | arrival
  deriving DecidableEq, Repr

instance : Named TimeMode where
  all := [.departure, .arrival]
  name
    | .departure => "departure"
    | .arrival => "arrival"

/-- Whether the time is the latest arrival. -/
def TimeMode.isArriveBy : TimeMode → Bool
  | .departure => false
  | .arrival => true

/-- The mode by whether the time is the latest arrival. -/
def TimeMode.ofArriveBy (arriveBy : Bool) : TimeMode := if arriveBy then .arrival else .departure

/-- The settings that a query starts with. -/
structure Settings where
  timeMode : TimeMode
  accessProfile : String
  egressProfile : String
  /-- How much the time to the first stop weighs. -/
  accessWeight : Binary64
  /-- How much the time from the last stop weighs. -/
  egressWeight : Binary64
  /-- Whether all departures in a window are asked for. -/
  rangeQuery : Bool
  /-- The length of that window. -/
  rangeSpan : TimeSpan
  /-- The longest time on the street before the first and after the last stop. -/
  streetLimit : TimeSpan
  ignoreTransfers : Bool
  deriving DecidableEq

/-- What trip is wanted. -/
structure Query where
  origin : Option Coordinate
  destination : Option Coordinate
  time : Instant
  timeMode : TimeMode
  accessProfile : String
  egressProfile : String
  accessWeight : Binary64
  egressWeight : Binary64
  rangeQuery : Bool
  rangeSpan : TimeSpan
  streetLimit : TimeSpan
  ignoreTransfers : Bool
  /-- A distance that is shown but never sent to the routing server. -/
  auxiliaryDistance : Option Binary64
  deriving DecidableEq

namespace Query

/-- The query without endpoints at some time, its settings as given. Queries count time in whole
seconds. -/
def start (now : Instant) (s : Settings) : Query where
  origin := none
  destination := none
  time := now.wholeSecond
  timeMode := s.timeMode
  accessProfile := s.accessProfile
  egressProfile := s.egressProfile
  accessWeight := s.accessWeight
  egressWeight := s.egressWeight
  rangeQuery := s.rangeQuery
  rangeSpan := s.rangeSpan
  streetLimit := s.streetLimit
  ignoreTransfers := s.ignoreTransfers
  auxiliaryDistance := none

/-- A query can be sent once both endpoints are known. -/
def isComplete (q : Query) : Bool := q.origin.isSome && q.destination.isSome

end Query

end TripPlanner
