/-!
# Faults

What can keep the planner from doing as it is told, and the wording of each cause.

* `Malformed`: a text is not what it should write.
* `RequestFault`: a request to the routing server brought no answer that can be used.
* `Failure`: an operation of the planner fails.
-/

namespace TripPlanner

/-- Why a text is not read. -/
inductive Malformed where
  | coordinate (text : String)
  | latitude (reason : String)
  | longitude (reason : String)
  | timeSpan (text reason : String)
  | url (text reason : String)
  deriving DecidableEq, Repr

/-- The wording of a cause. -/
def Malformed.message : Malformed → String
  | .coordinate text => "invalid coordinate '" ++ text ++ "', expected 'lat,lon'"
  | .latitude reason => "invalid latitude: " ++ reason
  | .longitude reason => "invalid longitude: " ++ reason
  | .timeSpan text reason => "invalid ISO-8601 duration '" ++ text ++ "': " ++ reason
  | .url text reason => "invalid url '" ++ text ++ "': " ++ reason

/-- Why a request brought no answer that can be used. -/
inductive RequestFault where
  /-- No answer arrived. -/
  | transport (target reason : String)
  /-- The answer was a refusal. -/
  | status (target : String) (code : Nat)
  /-- The answer could not be read. -/
  | body (target reason : String)
  /-- The request could not be sent, for want of a URL. -/
  | unreadableUrl (target reason : String)
  /-- No request could be sent at all. -/
  | setup (reason : String)
  deriving DecidableEq, Repr

/-- The wording of a cause. -/
def RequestFault.message : RequestFault → String
  | .transport target reason => "request to " ++ target ++ " failed: " ++ reason
  | .status target code => "request to " ++ target ++ " returned HTTP status " ++ toString code
  | .body target reason => "failure decoding response from " ++ target ++ ": " ++ reason
  | .unreadableUrl target reason => "invalid request url '" ++ target ++ "': " ++ reason
  | .setup reason => "failure building http client: " ++ reason

/-- Why an operation fails. -/
inductive Failure where
  /-- There is no route of that index. -/
  | selectionOutOfRange (index count : Nat)
  /-- The route of that index is not possible. -/
  | infeasibleSelection (index : Nat)
  | configuration (reason : String)
  /-- The routing server has not described itself. -/
  | inert (reason : String)
  | routes (reason : String)
  | malformed (cause : Malformed)
  | request (cause : RequestFault)
  | runtime (reason : String)
  deriving DecidableEq, Repr

/-- The wording of a cause. -/
def Failure.message : Failure → String
  | .selectionOutOfRange index count =>
    "cannot select route " ++ toString index ++ ", only " ++ toString count ++ " routes available"
  | .infeasibleSelection index =>
    "cannot select route " ++ toString index ++ ", it is not a possible route"
  | .configuration reason => "invalid planner configuration: " ++ reason
  | .inert reason => "planner is inert: " ++ reason
  | .routes reason => "route request failed: " ++ reason
  | .malformed cause => cause.message
  | .request cause => cause.message
  | .runtime reason => "failure running planner session: " ++ reason

end TripPlanner
