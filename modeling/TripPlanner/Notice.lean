import TripPlanner.Coordinate

/-!
# Notices

What the planner tells whoever runs it, without failing.
-/

namespace TripPlanner

/-- The two ends of a trip. -/
inductive End where
  | origin
  | destination
  deriving DecidableEq, Repr

/-- The name of an end. -/
def End.name : End → String
  | .origin => "origin"
  | .destination => "destination"

/-- Something worth telling. -/
inductive Notice where
  /-- A link has more points than endpoints. -/
  | surplusPoints (count : Nat)
  /-- An endpoint lies where the routing server knows no routes. -/
  | outside (which : End) (place : Coordinate)
  | routesFailed (fault : RequestFault)
  | serviceFailed (fault : RequestFault)
  | selectionRefused (failure : Failure)
  deriving DecidableEq, Repr

/-- The wording of a notice. -/
def Notice.message : Notice → String
  | .surplusPoints count =>
    "query has " ++ toString count ++ " 'point' parameters, only the first two are used"
  | .outside which place =>
    which.name ++ " " ++ place.display ++ " lies outside of the routing server coverage"
  | .routesFailed fault => "route request failed: " ++ fault.message
  | .serviceFailed fault =>
    "failure loading server info, planner stays inert: " ++ fault.message
  | .selectionRefused failure => "ignoring route selection: " ++ failure.message

end TripPlanner
