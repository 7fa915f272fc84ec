import TripPlanner.Configuration.Basic

/-!
# Requests

A request for routes is known by its URL, the link of the query on the place where routes are
requested. A query is sent unless it already was the latest one sent; an answer counts only if the
query, when the answer arrives, still is the one that was sent.

* `Requests.canonical`: the request that a query makes.
* `Requests.send`: whether a query is sent, and the results meanwhile.
* `Requests.receive`: what an answer makes of the results.
-/

namespace TripPlanner

/-- What the planner asks whoever runs it to do. -/
inductive Effect where
  /-- Ask the routing server to describe itself. -/
  | fetchInfo
  /-- Send a request for routes. -/
  | fetchRoutes (request : String)
  deriving DecidableEq, Repr

/-- The answer to a request for routes. -/
abbrev RoutesAnswer := Except RequestFault (List Itinerary)

/-- How requests are made. -/
structure Requests where
  format : LinkFormat
  place : Url
  /-- Whether the itineraries of earlier results are shown while a request is on its way. -/
  keepsPaths : Bool
  deriving DecidableEq

/-- What became of an answer. -/
inductive Reception where
  | committed (progress : Progress)
  /-- The query has changed since the request was sent. -/
  | discarded
  deriving DecidableEq, Repr

namespace Requests

/-- The request that a query makes, once it is complete. -/
def canonical (r : Requests) (q : Query) : Option String :=
  if q.isComplete then some (r.format.link r.place q).text else none

/-- The results after a request has been sent. -/
def sent (r : Requests) (results : Results) (request : String) : Results :=
  .fetching request (if r.keepsPaths then results.paths else [])

/-- A query is sent unless it is not complete or was the latest one sent; `again` sends it
nevertheless. -/
def send (r : Requests) (q : Query) (results : Results) (again : Bool) : Results × List Effect :=
  match r.canonical q with
  | none => (results, [])
  | some request =>
    if !again && results.request = some request then (results, [])
    else (r.sent results request, [.fetchRoutes request])

/-- The results after the answer to a request that still counts. -/
def settle (request : String) : RoutesAnswer → Results
  | .ok paths => .succeeded request paths
  | .error _ => .failed request

/-- What is worth telling about an answer that counts. -/
def settleNotices : RoutesAnswer → List Notice
  | .ok _ => []
  | .error fault => [.routesFailed fault]

/-- What an answer makes of the results, what is worth telling, and whether it counted. -/
def receive (r : Requests) (q : Query) (results : Results) (request : String)
    (answer : RoutesAnswer) : Results × List Notice × Reception :=
  if r.canonical q = some request then
    let settled := settle request answer
    (settled, settleNotices answer, .committed settled.progress)
  else (results, [], .discarded)

end Requests

end TripPlanner
