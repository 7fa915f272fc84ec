import TripPlanner.Coordinate

/-!
# What a routing server says about itself

A routing server describes itself before it is asked for routes. The planner looks at the area that
the server covers; everything else is carried along as it came.

* `ServiceInfo.coverage`: the area that is covered, if the server says so.
* `ServiceInfo.covers`: whether a coordinate lies in it.
-/

namespace TripPlanner

open Json

/-- A rectangle of longitudes and latitudes, its borders included. -/
structure Area where
  west : Binary64
  south : Binary64
  east : Binary64
  north : Binary64
  deriving DecidableEq, Repr

namespace Area

/-- Two numbers in increasing order. -/
def ordered (a b : Binary64) : Binary64 × Binary64 := if a.less b then (a, b) else (b, a)

/-- The rectangle between two corners. -/
def between (x₁ y₁ x₂ y₂ : Binary64) : Area :=
  let (west, east) := ordered x₁ x₂
  let (south, north) := ordered y₁ y₂
  ⟨west, south, east, north⟩

/-- Whether a coordinate lies in a rectangle. -/
def contains (a : Area) (c : Coordinate) : Bool :=
  a.west.atMost c.lon && a.south.atMost c.lat && c.lon.atMost a.east && c.lat.atMost a.north

end Area

/-- What a routing server says about itself. -/
structure ServiceInfo where
  /-- The covered area as the least longitude and latitude and the greatest. -/
  bounds : List Binary64
  version : Option String
  buildDate : Option String
  profiles : List Value
  /-- Everything else, sorted by name. -/
  others : Members

namespace ServiceInfo

/-- The area that is covered, if the server gives four bounds. -/
def coverage (s : ServiceInfo) : Option Area :=
  match s.bounds with
  | [x₁, y₁, x₂, y₂] => some (.between x₁ y₁ x₂ y₂)
  | _ => none

/-- Whether a coordinate is covered. A server that gives no bounds covers everything. -/
def covers (s : ServiceInfo) (c : Coordinate) : Bool :=
  match s.coverage with
  | some area => area.contains c
  | none => true

/-- The names of the members that are looked at. -/
def names : List String := ["bbox", "version", "build_date", "profiles"]

/-- A description as it is read. -/
def shape : Shape ServiceInfo := fun r t => do
  let (fields, others) ← Fields.named? names r t
  let bounds ← fields.given "bbox" Shape.number.list []
  let version ← fields.optional "version" Shape.text
  let buildDate ← fields.optional "build_date" Shape.text
  let profiles ← fields.given "profiles" Shape.value.list []
  let others ← fields.values? others
  some { bounds, version, buildDate, profiles, others }

/-- A description in JSON. -/
def value (s : ServiceInfo) : Value :=
  .record
    ([("bbox", .list (s.bounds.map .real)), ("version", .optional .text s.version),
      ("build_date", .optional .text s.buildDate), ("profiles", .list s.profiles)] ++ s.others)

end ServiceInfo

end TripPlanner
