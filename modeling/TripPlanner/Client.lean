import TripPlanner.Configuration.Basic
import TripPlanner.Planner.Session

/-!
# Asking the routing server

The routing server is asked over HTTP. An answer counts if its status says success and its body is
a JSON text of the kind that was asked for; everything else is a fault.

* `Client.info`: the routing server's description of itself.
* `Client.routes`: the answer to a request for routes.
-/

namespace TripPlanner

/-- What comes back over the network. -/
inductive Reply where
  /-- Nothing. -/
  | silence
  | message (status : Nat) (body : String)
  deriving DecidableEq, Repr

/-- The network, as seen from here: what comes back from a URL. -/
abbrev Network := Url → Reply

namespace Client

open Json

/-- Whether a status makes a message an answer: it has three digits, and it does not just say that
the answer is still to come. Status 101 ends the conversation. -/
def isFinal (status : Nat) : Bool := status = 101 || (200 ≤ status && status < 1000)

/-- The body of a successful answer; some answers never have one. -/
def body (status : Nat) (text : String) : String := if status = 204 then "" else text

/-- What a URL gives, read by a shape. Only HTTP can be spoken. -/
def get {α : Type} (shape : Shape α) (network : Network) (u : Url) : Except RequestFault α :=
  if u.scheme ≠ "http".toList ∧ u.scheme ≠ "https".toList then
    .error (.transport u.text "not a URL of HTTP")
  else match network u with
    | .silence => .error (.transport u.text "no answer")
    | .message status text =>
      if !isFinal status then .error (.transport u.text "no answer")
      else if status < 200 ∨ 300 ≤ status then .error (.status u.text status)
      else match read? shape (body status text) with
        | some a => .ok a
        | none => .error (.body u.text "unexpected content")

/-- Where the routing server is asked to describe itself. -/
def infoUrl (c : Configuration) : Except RequestFault Url :=
  c.infoUrl.mapError fun fault => .unreadableUrl c.infoEndpoint fault.message

/-- The routing server's description of itself. -/
def info (network : Network) (u : Url) : InfoAnswer := get ServiceInfo.shape network u

/-- The answer to a request for routes. -/
def routes (network : Network) (request : String) : RoutesAnswer :=
  match Url.ofText request with
  | .error fault => .error (.unreadableUrl request fault.message)
  | .ok u => get Itinerary.answerShape network u

/-- The answer to an effect. -/
def answer (network : Network) (infoUrl : Url) : Effect → Answer
  | .fetchInfo => .info (info network infoUrl)
  | .fetchRoutes request => .routes (routes network request)

end Client

end TripPlanner
