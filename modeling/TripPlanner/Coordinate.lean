import TripPlanner.Binary64.Layout
import TripPlanner.Binary64.Reader
import TripPlanner.Fault
import TripPlanner.Json.Shape
import TripPlanner.Text.Blank
import TripPlanner.Text.Split

/-!
# Coordinates

A coordinate is a latitude and a longitude in degrees. As text the latitude comes first, and a
comma stands between the two.

* `Coordinate.checked`: a coordinate whose numbers are on the globe.
* `Coordinate.ofText`: the coordinate on the globe that a text writes.
-/

namespace TripPlanner

/-- A latitude and a longitude in degrees. -/
structure Coordinate where
  lat : Binary64
  lon : Binary64
  deriving DecidableEq, Repr

namespace Coordinate

open Text

/-- A coordinate as text. -/
def display (c : Coordinate) : String := c.lat.display ++ "," ++ c.lon.display

/-- Coordinates are the same when their numbers are equal. -/
def same (a b : Coordinate) : Bool := a.lat.same b.lat && a.lon.same b.lon

/-- A number of degrees that is no more than `limit` away from zero. -/
def degrees (x : Binary64) (limit : Nat) : Except String Binary64 :=
  let upper := Binary64.ofInt limit
  if x.isFinite && !x.less upper.negate && !upper.less x then .ok x
  else .error ("number '" ++ x.display ++ "' is not valid, must be in range [" ++
    upper.negate.display ++ "," ++ upper.display ++ "]")

/-- A number of degrees in a text, white space around it aside. -/
def number (s : List Char) : Except String Binary64 :=
  match Binary64.ofText? (trim s) with
  | some x => .ok x
  | none => .error ("not a number: " ++ String.ofList s)

/-- A coordinate on the globe. -/
def checked (lat lon : Binary64) : Except Malformed Coordinate := do
  let lat ← (degrees lat 90).mapError .latitude
  let lon ← (degrees lon 180).mapError .longitude
  return ⟨lat, lon⟩

/-- The coordinate on the globe that a text writes. -/
def ofText (s : String) : Except Malformed Coordinate :=
  match splitAt ',' s.toList with
  | [lat, lon] => do
    let lat ← (number lat).mapError .latitude
    let lon ← (number lon).mapError .longitude
    checked lat lon
  | _ => .error (.coordinate s)

/-- A coordinate as it is read from JSON, wherever it lies. -/
def shape : Json.Shape Coordinate := fun r t => do
  let fields ← Json.Fields.read? ["lat", "lon"] r t
  let lat ← fields.required "lat" Json.Shape.number
  let lon ← fields.required "lon" Json.Shape.number
  some ⟨lat, lon⟩

/-- A coordinate in JSON. -/
def value (c : Coordinate) : Json.Value := .record [("lat", .real c.lat), ("lon", .real c.lon)]

end Coordinate

end TripPlanner
