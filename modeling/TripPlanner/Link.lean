import TripPlanner.Notice
import TripPlanner.Query.Edit
import TripPlanner.Url.Reader

/-!
# Links

A link is a URL whose query holds the pairs of a trip query. The same pairs make a request to the
routing server and a page that can be shared; only the URL they are put on differs. Pairs are
always written in the same order, so equal queries have equal links.

Reading a link takes what it can: unknown names are passed over, and a value that is not accepted
leaves its field alone. Where a name occurs again its last value counts, accepted or not. The first
point is the origin and the second the destination.

* `LinkFormat.pairs`, `LinkFormat.link`: a query as pairs and as a link.
* `Link.edit`: what a link says about a query.
* `Link.ofText`: the link that a text writes, which may also be a bare query.
-/

namespace TripPlanner

/-- What links say besides the query. -/
structure LinkFormat where
  locale : String
  /-- The routing profile that the routing server is asked for. -/
  profile : String
  deriving DecidableEq, Repr

namespace Link

open Text

/-- The names of pairs. -/
def pointName : String := "point"
def timeName : String := "pt.earliest_departure_time"
def arriveByName : String := "pt.arrive_by"
def rangeQueryName : String := "pt.profile"
def rangeSpanName : String := "pt.profile_duration"
def accessProfileName : String := "pt.access_profile"
def accessWeightName : String := "pt.beta_access_time"
def egressProfileName : String := "pt.egress_profile"
def egressWeightName : String := "pt.beta_egress_time"
def streetLimitName : String := "pt.limit_street_time"
def ignoreTransfersName : String := "pt.ignore_transfers"
def localeName : String := "locale"
def profileName : String := "profile"

/-- A truth value as text. -/
def flag (b : Bool) : String := if b then "true" else "false"

/-- The truth value that a text writes. -/
def flag? (s : String) : Option Bool :=
  if s = "true" then some true else if s = "false" then some false else none

end Link

namespace LinkFormat

open Link

/-- A query as pairs of names and values. An endpoint that is not known is left out. -/
def pairs (f : LinkFormat) (q : Query) : List (String × String) :=
  ([q.origin, q.destination].filterMap id).map (fun c => (pointName, c.display)) ++
    [(timeName, q.time.toSeconds), (arriveByName, flag q.timeMode.isArriveBy),
      (rangeQueryName, flag q.rangeQuery), (rangeSpanName, q.rangeSpan.text),
      (accessProfileName, q.accessProfile), (accessWeightName, q.accessWeight.display),
      (egressProfileName, q.egressProfile), (egressWeightName, q.egressWeight.display),
      (streetLimitName, q.streetLimit.text), (ignoreTransfersName, flag q.ignoreTransfers),
      (localeName, f.locale), (profileName, f.profile)]

/-- A query as a link on some URL, whose own query and fragment are dropped. -/
def link (f : LinkFormat) (base : Url) (q : Query) : Url :=
  base.withPairs ((f.pairs q).map fun pair => (pair.1.toList, pair.2.toList))

end LinkFormat

namespace Link

open Text

/-- The pairs that a link holds. -/
def pairs (u : Url) : List (String × String) :=
  u.pairs.map fun pair => (String.ofList pair.1, String.ofList pair.2)

/-- The values of a name, in order. -/
def values (name : String) (pairs : List (String × String)) : List String :=
  pairs.filterMap fun pair => if pair.1 = name then some pair.2 else none

/-- What the last value of a name stands for, white space around it aside. -/
def last {α : Type} (name : String) (read : String → Option α) (pairs : List (String × String)) :
    Option α :=
  (values name pairs).getLast?.bind fun value => read (trimmed value)

/-- A profile that is accepted. -/
def profile? (s : String) : Option String := (Rule.profile s).toOption

/-- A weight that is accepted. -/
def weight? (s : String) : Option Binary64 :=
  (Binary64.ofText? s.toList).bind fun x => (Rule.weight x).toOption

/-- A time span. -/
def span? (s : String) : Option TimeSpan := (TimeSpan.ofText s).toOption

/-- A coordinate on the globe. -/
def point? (s : String) : Option Coordinate := (Coordinate.ofText (trimmed s)).toOption

/-- What pairs say about a query. -/
def editOfPairs (ps : List (String × String)) : Edit :=
  let points := (values pointName ps).map point?
  { origin := (points[0]?.bind id).map some
    destination := (points[1]?.bind id).map some
    time := last timeName Instant.ofText? ps
    timeMode := (last arriveByName flag? ps).map TimeMode.ofArriveBy
    accessProfile := last accessProfileName profile? ps
    egressProfile := last egressProfileName profile? ps
    accessWeight := last accessWeightName weight? ps
    egressWeight := last egressWeightName weight? ps
    rangeQuery := last rangeQueryName flag? ps
    rangeSpan := last rangeSpanName span? ps
    streetLimit := last streetLimitName span? ps
    ignoreTransfers := last ignoreTransfersName flag? ps }

/-- What a link says about a query. -/
def edit (u : Url) : Edit := editOfPairs (pairs u)

/-- What is worth telling about a link. -/
def notices (u : Url) : List Notice :=
  let count := (values pointName (pairs u)).length
  if 2 < count then [.surplusPoints count] else []

/-- The link that a text writes. A text that is no URL is taken for a query, with or without the
question mark before it. -/
def ofText (s : String) : Url :=
  match Url.ofText s with
  | .ok u => u
  | .error _ =>
    let page : Url := ⟨"http".toList, some ⟨[], none, .name "localhost".toList, none⟩,
      .segments [[]], none, none⟩
    page.withQuery (String.ofList ((trim s.toList).dropWhile (· = '?')))

end Link

end TripPlanner
