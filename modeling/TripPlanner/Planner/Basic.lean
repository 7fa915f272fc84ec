import TripPlanner.Planner.AddressBar
import TripPlanner.Planner.Requests
import TripPlanner.Query.Document
import TripPlanner.Service

/-!
# The planner

The planner holds the query, the results and the address bar. Everything that happens to it is an
event, and what it wants done in return are effects, whose outcomes come back as further events.
Until the routing server has described itself the planner is inert: the query can be edited, but
nothing is requested and nothing is shown.

* `Planner.start`: the planner at a location, whose link sets up the query.
* `Planner.update`: what an event does.
* `Planner.select`: an itinerary is picked by its index.
* `Planner.view`: what is shown.
-/

namespace TripPlanner

/-- What the routing server says about itself, if it answers. -/
abbrev InfoAnswer := Except RequestFault ServiceInfo

/-- Something that happens to the planner. -/
inductive Event where
  /-- The planner is shown. -/
  | mount
  | edit (e : Edit)
  /-- The user picks an itinerary. -/
  | select (index : Nat)
  /-- The user asks for routes once more. -/
  | refresh
  /-- The routing server has described itself, or has failed to. -/
  | info (answer : InfoAnswer)
  /-- The answer to a request for routes has arrived. -/
  | routes (request : String) (answer : RoutesAnswer)

/-- The state of the planner. -/
structure Planner where
  requests : Requests
  rule : SelectionRule
  reaction : DistanceReaction
  query : Query
  results : Results
  info : Option ServiceInfo
  bar : AddressBar

/-- What an event has done. -/
structure Response where
  planner : Planner
  effects : List Effect
  notices : List Notice

namespace Planner

/-- The planner at a location. The query starts with the settings of the configuration and what the
location says. -/
def start (c : Configuration) (location : Url) (now : Instant) :
    Except Configuration.Problem Planner := do
  let place ← c.routePlace
  return {
    requests := ⟨c.linkFormat, place, c.keepsPaths⟩
    rule := c.selectionRule
    reaction := c.reaction
    query := ((Query.start now c.settings).apply (Link.edit location)).1
    results := .idle
    info := none
    bar := { location } }

/-- The request that the query makes. -/
def request (p : Planner) : Option String := p.requests.canonical p.query

/-- The planner with the address bar showing the query. -/
def sync (p : Planner) : Planner := { p with bar := p.bar.sync p.requests.format p.query }

/-- The query is sent if it has to be, but not while the planner is inert. -/
def send (p : Planner) (again : Bool) : Planner × List Effect :=
  if p.info.isNone then (p, [])
  else
    let (results, effects) := p.requests.send p.query p.results again
    ({ p with results }, effects)

/-- The endpoints that lie where the routing server knows no routes. -/
def outside (p : Planner) : List Notice :=
  match p.info with
  | none => []
  | some info =>
    [(End.origin, p.query.origin), (.destination, p.query.destination)].filterMap fun entry =>
      match entry.2 with
      | some place => if info.covers place then none else some (.outside entry.1 place)
      | none => none

/-- An edit of the query. -/
def edit (p : Planner) (e : Edit) : Response :=
  let (query, change) := p.query.apply e
  if !change.any then ⟨{ p with query }, [], []⟩
  else
    let edited := { p with query }
    let notices := if e.origin.isSome || e.destination.isSome then edited.outside else []
    let (planner, effects) :=
      edited.sync.send (change.auxiliary && p.reaction.resends query.auxiliaryDistance)
    ⟨planner, effects, notices⟩

/-- The planner with an itinerary picked by its index. -/
def select (p : Planner) (index : Nat) : Except Failure Planner :=
  (p.rule.pick p.results index).map fun results => { p with results }

/-- What an event does. -/
def update (p : Planner) : Event → Response
  | .mount => ⟨p.sync, [.fetchInfo], []⟩
  | .edit e => p.edit e
  | .select index =>
    match p.select index with
    | .ok planner => ⟨planner, [], []⟩
    | .error failure => ⟨p, [], [.selectionRefused failure]⟩
  | .refresh =>
    let (planner, effects) := p.send true
    ⟨planner, effects, []⟩
  | .info (.ok info) =>
    let informed := { p with info := some info }
    let (planner, effects) := informed.send false
    ⟨planner, effects, informed.outside⟩
  | .info (.error fault) => ⟨p, [], [.serviceFailed fault]⟩
  | .routes request answer =>
    let (results, notices, _) := p.requests.receive p.query p.results request answer
    ⟨{ p with results }, [], notices⟩

/-- What is shown; nothing while the planner is inert. -/
def view (p : Planner) : Option Json.Value :=
  p.info.map fun info =>
    .record [("info", info.value), ("query", p.query.value), ("routes", p.results.value)]

end Planner

end TripPlanner
