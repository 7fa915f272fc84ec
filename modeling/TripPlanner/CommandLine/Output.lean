import TripPlanner.Client
import TripPlanner.CommandLine.Command
import TripPlanner.Configuration.File
import TripPlanner.Json.Writer

/-!
# Output

What the program writes when a command is carried out, given the files that it may read, the
network, and the time at which it is started.

* `Invocation.output`: what a command writes, or why it fails.
* `Ending.ofArguments`: how the program ends.
-/

namespace TripPlanner.CommandLine

/-- What is written. -/
structure Output where
  /-- The outcome of the command. -/
  outcome : String
  /-- What is told besides. -/
  remark : String
  deriving DecidableEq, Repr

/-- The surroundings in which the program runs. -/
structure Surroundings where
  /-- The octets of a file, if there is one of that name. -/
  file : String → Option (List UInt8)
  network : Network
  now : Instant

/-- A text as a line. -/
def line (s : String) : String := s ++ "\n"

/-- The planner at an initial link, or at the page of the configuration. -/
def plannerAt (c : Configuration) (now : Instant) (link : Option String) :
    Except Configuration.Problem Planner := do
  let location ← match link with
    | some s => (Url.ofText s).mapError (.initialUrl s)
    | none => c.pagePlace
  Planner.start c location now

/-- The answers to what waits for one at some places. -/
def answerAt (reply : Effect → Answer) (s : Session) (places : List Nat) : Session :=
  places.foldl (fun s place =>
    match s.sent[place]?.bind fun effect => s.answer? place (reply effect) with
    | some (s, _) => s
    | none => s) s

/-- A session with one edit, run to its end. The routing server describes itself once and after
that gets the request of the query, so that nothing is left waiting after two rounds. -/
def lastOf (reply : Effect → Answer) (p : Planner) (e : Edit) : Planner :=
  let s := ((Session.start p).1.handle (.edit e)).1.close
  let s := answerAt reply s s.waiting
  (answerAt reply s s.waiting).planner

/-- What is told of the results of a planner. -/
def outputOf (p : Planner) : Except Failure Output :=
  match p.results.progress with
  | .idle => .error (.routes "query is incomplete, both --from and --to are required")
  | .failed => .error (.routes (p.results.request.getD ""))
  | _ => .ok { outcome := line (p.view.getD .null).pretty, remark := line p.bar.location.text }

/-- What is told of a planner whose session is over, once an itinerary has been picked. -/
def report (c : Configuration) (select : Option Nat) (p : Planner) : Except Failure Output := do
  if p.info.isNone then throw (.inert ("no server info from " ++ c.baseText))
  match select with
  | some index => outputOf (← p.select index)
  | none => outputOf p

/-- Routes for a query. -/
def plan (c : Configuration) (around : Surroundings) (e : Edit) (link : Option String)
    (select : Option Nat) : Except Failure Output := do
  let start ← (plannerAt c around.now link).mapError Configuration.Problem.failure
  let infoUrl ← (Client.infoUrl c).mapError .request
  report c select (lastOf (Client.answer around.network infoUrl) start e)

/-- The link of a query. -/
def shared (c : Configuration) (now : Instant) (e : Edit) (link : Option String) :
    Except Failure Output := do
  let start ← (plannerAt c now link).mapError Configuration.Problem.failure
  let p := ((start.update (.edit e)).planner.update .mount).planner
  return { outcome := line p.bar.location.text, remark := "" }

/-- What a link says. -/
def decoded (link : String) : Output where
  outcome := line (Link.edit (Link.ofText link)).value.pretty
  remark := ""

/-- The configuration that a command goes by. -/
def Invocation.configuration (i : Invocation) (around : Surroundings) :
    Except Configuration.Problem Configuration :=
  match i.file with
  | some file => Configuration.ofFile file (around.file file)
  | none => .ok {}

/-- What a command writes, or why it fails. -/
def Invocation.output (i : Invocation) (around : Surroundings) : Except Failure Output := do
  let c ← (i.configuration around).mapError Configuration.Problem.failure
  match i.command with
  | .plan edit link select => plan c around edit link select
  | .link edit link => shared c around.now edit link
  | .decode link => return decoded link

/-- How the program ends. -/
inductive Ending where
  | done (output : Output)
  | failed (failure : Failure)
  /-- The arguments do not make a command. -/
  | misused (usage : Usage)

/-- How the program ends, by its arguments. -/
def Ending.ofArguments (arguments : List String) (around : Surroundings) : Ending :=
  match Invocation.ofArguments arguments with
  | .error usage => .misused usage
  | .ok i =>
    match i.output around with
    | .ok output => .done output
    | .error failure => .failed failure

/-- The exit code: zero for success, one for a failure, two for arguments that make no command. -/
def Ending.exitCode : Ending → Nat
  | .done _ => 0
  | .failed _ => 1
  | .misused usage => if usage.isRequested then 0 else 2

/-- What is written to standard output. -/
def Ending.outcome : Ending → String
  | .done output => output.outcome
  | _ => ""

/-- What is told besides. -/
def Ending.remark : Ending → String
  | .done output => output.remark
  | .failed failure => line failure.message
  | .misused usage => line usage.message

end TripPlanner.CommandLine
