import TripPlanner.Fault
import TripPlanner.Itinerary
import TripPlanner.Named
import TripPlanner.Word

/-!
# Results

The results are what is known about the routes of the latest request: whether it is on its way, has
brought itineraries or has failed, and which itinerary is picked. New results take the place of old
ones as a whole.

* `Results.pickFirst`: the first possible itinerary is picked.
* `SelectionRule.pick`: an itinerary is picked by its index.
-/

namespace TripPlanner

open Json

/-- How far a request has come. -/
inductive Progress where
  /-- Nothing has been requested yet. -/
  | idle
  | fetching
  | succeeded
  | failed
  deriving DecidableEq, Repr

instance : Named Progress where
  all := [.idle, .fetching, .succeeded, .failed]
  name
    | .idle => "idle"
    | .fetching => "fetching"
    | .succeeded => "succeeded"
    | .failed => "failed"

/-- What is known about the routes of the latest request. -/
structure Results where
  /-- The request, once there is one. -/
  request : Option String
  progress : Progress
  /-- Itineraries in the order of rank that the server gave them. -/
  paths : List Itinerary
  /-- The index of the picked itinerary; it is negative where none is picked. -/
  selected : Int

namespace Results

/-- The index that stands for no pick. -/
def noSelection : Int := -1

/-- Before the first request. -/
def idle : Results := ⟨none, .idle, [], noSelection⟩

/-- An itinerary that is not picked. -/
def unpicked (i : Itinerary) : Itinerary := { i with isSelected := false }

/-- A request on its way. Itineraries of earlier results may be shown meanwhile, none of them
picked. -/
def fetching (request : String) (shown : List Itinerary) : Results :=
  ⟨some request, .fetching, shown.map unpicked, noSelection⟩

/-- A request that has failed. -/
def failed (request : String) : Results := ⟨some request, .failed, [], noSelection⟩

/-- Itineraries with the first possible one picked, and its index. -/
def pickFirst (paths : List Itinerary) : List Itinerary × Int :=
  let paths := paths.map unpicked
  match paths.findIdx? (·.isPossible) with
  | some index => (paths.modify index fun i => { i with isSelected := true }, index)
  | none => (paths, noSelection)

/-- A request that has brought itineraries. -/
def succeeded (request : String) (paths : List Itinerary) : Results :=
  let (paths, selected) := pickFirst paths
  ⟨some request, .succeeded, paths, selected⟩

/-- The index of the picked itinerary, if one is picked. -/
def selection (r : Results) : Option Nat := if r.selected < 0 then none else some r.selected.toNat

/-- The picked itinerary. -/
def selectedPath (r : Results) : Option Itinerary := r.selection.bind (r.paths[·]?)

/-- Whether the request is on its way. -/
def isFetching (r : Results) : Bool := r.progress = .fetching

/-- The names of the members, in order. -/
def names : List String := ["dispatched_request", "status", "paths", "selected_index"]

/-- Results as they are read. -/
def shape : Shape Results := fun r t => do
  let fields ← Fields.read? names r t
  let request ← fields.optional "dispatched_request" Shape.text
  let progress ← fields.required "status" (Named.shape Progress)
  let paths ← fields.required "paths" Itinerary.shape.list
  let selected ← fields.required "selected_index" (Shape.integer (Word.fitsSigned 64))
  some ⟨request, progress, paths, selected⟩

/-- Results in JSON. -/
def value (r : Results) : Value :=
  .record
    [("dispatched_request", .optional .text r.request), ("status", Named.value r.progress),
      ("paths", .list (r.paths.map Itinerary.value)),
      ("selected_index", .number (.integer r.selected))]

end Results

/-- Which itineraries the user may pick. -/
inductive SelectionRule where
  /-- Any itinerary, also one that is not possible. -/
  | permissive
  /-- Possible itineraries only. -/
  | feasibleOnly
  deriving DecidableEq, Repr

instance : Named SelectionRule where
  all := [.permissive, .feasibleOnly]
  name
    | .permissive => "permissive"
    | .feasibleOnly => "feasible_only"

namespace SelectionRule

/-- Results with one itinerary unpicked and another picked. -/
def move (r : Results) (index : Nat) : Results :=
  let released := match r.selection with
    | some old => r.paths.modify old Results.unpicked
    | none => r.paths
  { r with
    paths := released.modify index fun i => { i with isSelected := true }
    selected := index }

/-- Results with an itinerary picked by its index. -/
def pick (rule : SelectionRule) (r : Results) (index : Nat) : Except Failure Results :=
  match r.paths[index]? with
  | none => .error (.selectionOutOfRange index r.paths.length)
  | some target =>
    if rule = .feasibleOnly ∧ !target.isPossible then .error (.infeasibleSelection index)
    else .ok (move r index)

end SelectionRule

end TripPlanner
