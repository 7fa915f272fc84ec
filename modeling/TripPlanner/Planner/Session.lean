import TripPlanner.Planner.Basic

/-!
# Sessions

A session runs the planner against a routing server. The user's events are handled as they come;
each effect sends something to the server, any number of which may be waiting for an answer at a
time, and answers may arrive in any order. A session is over once no more events come in and
nothing is waiting.

* `Session.start`: a session in which the planner has been shown.
* `Session.handle`, `Session.answer?`, `Session.close`: an event, an answer, the last event.
-/

namespace TripPlanner

/-- What comes back from the routing server. -/
inductive Answer where
  | info (answer : InfoAnswer)
  | routes (answer : RoutesAnswer)

/-- A planner and what it has sent to the routing server. -/
structure Session where
  planner : Planner
  /-- Everything sent so far, in order. -/
  sent : List Effect
  /-- The places in `sent` that wait for an answer, in order. -/
  waiting : List Nat
  /-- Whether the user's events may still come in. -/
  isOpen : Bool

namespace Session

/-- A session before anything has happened. -/
def of (p : Planner) : Session := ⟨p, [], [], true⟩

/-- The effects of an event are carried out. -/
def carryOut (s : Session) (r : Response) : Session where
  planner := r.planner
  sent := s.sent ++ r.effects
  waiting := s.waiting ++ List.range' s.sent.length r.effects.length
  isOpen := s.isOpen

/-- An event is handled. -/
def handle (s : Session) (e : Event) : Session × List Notice :=
  let response := s.planner.update e
  (s.carryOut response, response.notices)

/-- A session in which the planner has been shown. -/
def start (p : Planner) : Session × List Notice := (of p).handle .mount

/-- The event that an answer to something sent makes, if it fits. -/
def event? : Effect → Answer → Option Event
  | .fetchInfo, .info answer => some (.info answer)
  | .fetchRoutes request, .routes answer => some (.routes request answer)
  | _, _ => none

/-- An answer arrives to what was sent at a place, if that still waits for one. -/
def answer? (s : Session) (place : Nat) (a : Answer) : Option (Session × List Notice) := do
  let effect ← if s.waiting.contains place then s.sent[place]? else none
  let event ← event? effect a
  some ({ s with waiting := s.waiting.erase place }.handle event)

/-- No more events of the user come in. -/
def close (s : Session) : Session := { s with isOpen := false }

/-- Whether the session is over. -/
def isOver (s : Session) : Bool := !s.isOpen && s.waiting.isEmpty

/-- The places of what waits for the server to describe itself. -/
def waitingInfos (s : Session) : List Nat :=
  s.waiting.filter fun place => s.sent[place]? = some .fetchInfo

/-- The places of requests for routes, in order. -/
def routePlaces (s : Session) : List Nat :=
  (List.range s.sent.length).filter fun place => s.sent[place]? != some .fetchInfo

/-- The requests for routes, in order. -/
def routeRequests (s : Session) : List String :=
  s.sent.filterMap fun
    | .fetchRoutes request => some request
    | .fetchInfo => none

end Session

end TripPlanner
