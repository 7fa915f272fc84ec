import TripPlanner.CommandLine.Arguments
import TripPlanner.Query.Edit
import TripPlanner.Text.Digits
import TripPlanner.Time.Reader
import TripPlanner.Word

/-!
# Commands

The program has three commands. `plan` asks the routing server for routes, `link` makes the link of
a query, and `decode` tells what a link says. The configuration file may be named before the
command or among its arguments; there it counts more.

* `Invocation.ofArguments`: the command that arguments give.
-/

namespace TripPlanner.CommandLine

/-- What the program is told to do. -/
inductive Command where
  /-- Routes are requested for a query, which an initial link may set up, and one may be picked. -/
  | plan (edit : Edit) (link : Option String) (select : Option Nat)
  /-- The link of a query is written. -/
  | link (edit : Edit) (link : Option String)
  /-- What a link says is written. -/
  | decode (link : String)
  deriving DecidableEq

/-- A command and the configuration file that it goes by. -/
structure Invocation where
  file : Option String
  command : Command
  deriving DecidableEq

/-- What the parameters of all commands together can say. -/
structure Wish where
  file : Option String := none
  edit : Edit := {}
  link : Option String := none
  select : Option Nat := none

/-- The parameter that names the configuration file. -/
def fileParameter : Parameters Wish :=
  [("configuration-file", .value fun s => some fun w => { w with file := some s })]

/-- A flag that edits the query. -/
def editing (change : Edit → Edit) : Meaning Wish :=
  .flag fun w => { w with edit := change w.edit }

/-- A value that edits the query. -/
def editingBy {α : Type} (read : String → Option α) (change : α → Edit → Edit) : Meaning Wish :=
  .value fun s => (read s).map fun a w => { w with edit := change a w.edit }

/-- A coordinate on the globe. -/
def coordinate? (s : String) : Option Coordinate := (Coordinate.ofText s).toOption

/-- A time span. -/
def timeSpan? (s : String) : Option TimeSpan := (TimeSpan.ofText s).toOption

/-- A number. -/
def number? (s : String) : Option Binary64 := Binary64.ofText? s.toList

/-- An index: decimal digits, with a plus sign or without, of at most 64 bits. -/
def index? (s : String) : Option Nat :=
  let numeral := match s.toList with
    | '+' :: rest => rest
    | characters => characters
  (Text.natural? numeral).filter (· < Word.values 64)

/-- The parameters that edit the query. -/
def queryParameters : Parameters Wish :=
  [("from", editingBy coordinate? fun c e => { e with origin := some (some c) }),
    ("to", editingBy coordinate? fun c e => { e with destination := some (some c) }),
    ("time", editingBy Instant.ofText? fun t e => { e with time := some t }),
    ("arrive-by", editing fun e => { e with timeMode := some .arrival }),
    ("access-profile", editingBy some fun s e => { e with accessProfile := some s }),
    ("egress-profile", editingBy some fun s e => { e with egressProfile := some s }),
    ("beta-access-time", editingBy number? fun x e => { e with accessWeight := some x }),
    ("beta-egress-time", editingBy number? fun x e => { e with egressWeight := some x }),
    ("range-query", editing fun e => { e with rangeQuery := some true }),
    ("range-query-duration", editingBy timeSpan? fun d e => { e with rangeSpan := some d }),
    ("limit-street-time", editingBy timeSpan? fun d e => { e with streetLimit := some d }),
    ("ignore-transfers", editing fun e => { e with ignoreTransfers := some true })]

/-- The parameter that gives an initial link. -/
def linkParameter : Parameters Wish :=
  [("url", .value fun s => some fun w => { w with link := some s })]

/-- The parameter that picks an itinerary. -/
def selectParameter : Parameters Wish :=
  [("select", .value fun s => (index? s).map fun i w => { w with select := some i })]

/-- The names of the commands. -/
inductive CommandName where
  | plan
  | link
  | decode
  /-- Tells about the program and its commands. -/
  | help
  deriving DecidableEq, Repr

namespace CommandName

/-- The command of a name. -/
def ofText? : String → Option CommandName
  | "plan" => some .plan
  | "link" => some .link
  | "decode" => some .decode
  | "help" => some .help
  | _ => none

/-- The parameters that a command understands. -/
def parameters : CommandName → Parameters Wish
  | .plan => fileParameter ++ queryParameters ++ linkParameter ++ selectParameter
  | .link => fileParameter ++ queryParameters ++ linkParameter
  | .decode => fileParameter
  | .help => []

/-- How many words a command takes. -/
def wordLimit : CommandName → Nat
  | .decode => 1
  | _ => 0

end CommandName

/-- What asking for help on some commands brings; no command has commands of its own. -/
def helpOn : List String → Usage
  | [] => .help
  | [name] => if (CommandName.ofText? name).isSome then .help else .unknownCommand
  | _ => .unknownCommand

namespace Invocation

/-- The command of a name that arguments after it give. -/
def ofCommand (name : CommandName) (arguments : List String) : Except Usage Invocation := do
  if name = .help then throw (helpOn arguments)
  let g ← (Gathered.start {}).takeAll name.parameters name.wordLimit arguments
  let w : Wish := g.record
  match name, g.words with
  | .plan, _ => return ⟨w.file, .plan w.edit w.link w.select⟩
  | .link, _ => return ⟨w.file, .link w.edit w.link⟩
  | _, [link] => return ⟨w.file, .decode link⟩
  | _, _ => throw .missingWord

/-- The command that arguments give, some of which have been read already. -/
def ofRest (g : Gathered Wish) : List String → Except Usage Invocation
  | [] => do
    let g ← g.settled
    throw (if g.given.isEmpty then .nothing else .noCommand)
  | s :: rest =>
    let command := CommandName.ofText? s
    if g.onlyWords then .error (if command.isSome then .unknownArgument else .unknownCommand)
    else if g.awaitsValue || Look.ofChars s.toList ≠ .word then do
      ofRest (← g.take fileParameter 0 s) rest
    else match command with
      | none => .error .unknownCommand
      | some name => do
        let inner ← ofCommand name rest
        let outer ← g.settled
        return { inner with file := inner.file.or outer.record.file }

/-- The command that arguments give. -/
def ofArguments (arguments : List String) : Except Usage Invocation :=
  ofRest (Gathered.start {}) arguments

end Invocation

end TripPlanner.CommandLine
