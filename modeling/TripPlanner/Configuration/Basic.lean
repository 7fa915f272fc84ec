import TripPlanner.Interval
import TripPlanner.Query.Edit
import TripPlanner.Results
import TripPlanner.Link

/-!
# Configurations

A configuration says where the routing server and the page of the planner are, how the planner
reacts to the user, and with which settings queries start.

* `Configuration.routeUrl`, `Configuration.infoUrl`, `Configuration.pageUrl`: the places.
* `Configuration.check`: whether the places can be built and the settings be given in a link.
-/

namespace TripPlanner

/-- What a change of the auxiliary distance does to the routes. -/
inductive DistanceReaction where
  /-- The distance is kept, and nothing else happens. -/
  | ignore
  /-- A new distance sends the current request again. -/
  | refetch
  deriving DecidableEq, Repr

instance : Named DistanceReaction where
  all := [.ignore, .refetch]
  name
    | .ignore => "ignore"
    | .refetch => "refetch"

/-- Whether a new distance sends the current request again; clearing it does not. -/
def DistanceReaction.resends (r : DistanceReaction) (distance : Option Binary64) : Bool :=
  r = .refetch && distance.isSome

/-- The settings that queries start with unless a configuration says otherwise. -/
def Settings.usual : Settings where
  timeMode := .departure
  accessProfile := "foot"
  egressProfile := "foot"
  accessWeight := .ofInt 1
  egressWeight := .ofInt 1
  rangeQuery := false
  rangeSpan := .ofMinutes 120 (by decide)
  streetLimit := .ofMinutes 30 (by decide)
  ignoreTransfers := false

/-- Where things are and how the planner behaves. -/
structure Configuration where
  /-- Scheme, host and port of the routing server. -/
  baseText : String := "http://localhost:8989"
  /-- The page on which links are put. -/
  pageText : String := "http://localhost:8989/"
  routeEndpoint : String := "/route"
  infoEndpoint : String := "/info"
  locale : String := "en-US"
  profile : String := "pt"
  selectionRule : SelectionRule := .permissive
  reaction : DistanceReaction := .ignore
  /-- Whether the itineraries of earlier results are shown while a request is on its way. -/
  keepsPaths : Bool := false
  /-- How long to wait for an answer, if not for ever. -/
  timeout : Option Interval := none
  settings : Settings := .usual
  deriving DecidableEq

namespace Configuration

/-- What links say besides the query. -/
def linkFormat (c : Configuration) : LinkFormat := ⟨c.locale, c.profile⟩

/-- An endpoint of the routing server. -/
def endpoint (c : Configuration) (path : String) : Except Url.Fault Url := do
  (← Url.ofText c.baseText).join path

/-- Where routes are requested. -/
def routeUrl (c : Configuration) : Except Url.Fault Url := c.endpoint c.routeEndpoint

/-- Where the routing server describes itself. -/
def infoUrl (c : Configuration) : Except Url.Fault Url := c.endpoint c.infoEndpoint

/-- The page on which links are put. -/
def pageUrl (c : Configuration) : Except Url.Fault Url := Url.ofText c.pageText

/-- What can be wrong with a configuration. -/
inductive Problem where
  | routeUrl (base endpoint : String) (fault : Url.Fault)
  | infoUrl (base endpoint : String) (fault : Url.Fault)
  | pageUrl (text : String) (fault : Url.Fault)
  | initialUrl (text : String) (fault : Url.Fault)
  | blankAround (field name : String)
  | refused (field : String) (refusal : Rule.Refusal)
  /-- The file cannot be read at all. -/
  | unreadable (file reason : String)
  /-- The file does not hold a configuration. -/
  | undecodable (file : String)
  | unknownFormat (file : String)
  deriving DecidableEq, Repr

/-- The wording of a problem. -/
def Problem.message : Problem → String
  | .routeUrl base endpoint fault =>
    "invalid route url from '" ++ base ++ "' + '" ++ endpoint ++ "': " ++ fault.message
  | .infoUrl base endpoint fault =>
    "invalid info url from '" ++ base ++ "' + '" ++ endpoint ++ "': " ++ fault.message
  | .pageUrl text fault => "invalid page url '" ++ text ++ "': " ++ fault.message
  | .initialUrl text fault => "invalid initial url '" ++ text ++ "': " ++ fault.message
  | .blankAround field name =>
    "defaults." ++ field ++ " '" ++ name ++ "' has surrounding whitespace"
  | .refused field refusal => "defaults." ++ field ++ ": " ++ refusal.message
  | .unreadable file reason => "failure reading " ++ file ++ ": " ++ reason
  | .undecodable file => "failure decoding " ++ file
  | .unknownFormat file => "unsupported file type: " ++ file

/-- A problem as a failure. -/
def Problem.failure (p : Problem) : Failure := .configuration p.message

/-- The place where routes are requested, or the problem with it. -/
def routePlace (c : Configuration) : Except Problem Url :=
  c.routeUrl.mapError (.routeUrl c.baseText c.routeEndpoint)

/-- The place where the routing server describes itself, or the problem with it. -/
def infoPlace (c : Configuration) : Except Problem Url :=
  c.infoUrl.mapError (.infoUrl c.baseText c.infoEndpoint)

/-- The page on which links are put, or the problem with it. -/
def pagePlace (c : Configuration) : Except Problem Url :=
  c.pageUrl.mapError (.pageUrl c.pageText)

/-- A profile that queries start with is accepted as it stands. -/
def checkProfile (field name : String) : Except Problem Unit :=
  match Rule.profile name with
  | .error refusal => .error (.refused field refusal)
  | .ok accepted => if accepted = name then .ok () else .error (.blankAround field name)

/-- A weight that queries start with is accepted. -/
def checkWeight (field : String) (x : Binary64) : Except Problem Unit :=
  match Rule.weight x with
  | .error refusal => .error (.refused field refusal)
  | .ok _ => .ok ()

/-- The first problem with a configuration, if there is one. -/
def check (c : Configuration) : Except Problem Unit := do
  let _ ← c.routePlace
  let _ ← c.infoPlace
  let _ ← c.pagePlace
  checkProfile "access_profile" c.settings.accessProfile
  checkProfile "egress_profile" c.settings.egressProfile
  checkWeight "beta_access_time" c.settings.accessWeight
  checkWeight "beta_egress_time" c.settings.egressWeight

end Configuration

end TripPlanner
