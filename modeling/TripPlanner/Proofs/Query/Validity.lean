import TripPlanner.Configuration.Basic
import TripPlanner.Proofs.Binary64.Order
import TripPlanner.Proofs.Checks
import TripPlanner.Proofs.Query.Edits
import TripPlanner.Proofs.Text.Trimming

/-!
# Values of queries

Numbers are checked for what they are worth (`Coordinate.checked_eq_ok_iff`,
`Rule.weight_eq_ok_iff`), names without the white space around them (`Rule.profile_eq_ok_iff`), and
what a rule makes of a value it accepts is accepted as it stands (`Rule.profile_stable`,
`Rule.weight_stable`, `Coordinate.checked_stable`). So the values of every query that starts with
the settings of a checked configuration are accepted as they stand, and its time is the beginning of
a second, whatever edits are applied (`Query.valid_reached`).
-/

namespace TripPlanner

/-! ## Rules -/

/-- Degrees are checked for their value, where the limit is a number as it stands. -/
theorem Coordinate.degrees_eq_ok_iff {x y : Binary64} {limit : Nat}
    (hLimit : (Binary64.ofInt limit).value? = some ((limit * Binary64.one : Nat) : Int)) :
    degrees x limit = .ok y ↔ y = x ∧ x.Within limit := by
  have hNegated : (Binary64.ofInt limit).negate.value? =
      some (-((limit * Binary64.one : Nat) : Int)) := by
    rw [Binary64.value?_negate, hLimit, Option.map_some]
  have hCondition : (x.isFinite && !x.less (Binary64.ofInt limit).negate &&
      !(Binary64.ofInt limit).less x) = true ↔ x.Within limit := by
    rw [← Binary64.isSome_value?, Binary64.Within]
    cases hx : x.value? with
    | none => simp
    | some value =>
      simp only [Option.isSome_some, Bool.true_and, Bool.and_eq_true, Bool.not_eq_true',
        Bool.eq_false_iff, Ne, Binary64.less_iff hx hNegated, Binary64.less_iff hLimit hx,
        Option.some.injEq, exists_eq_left']
      generalize limit * Binary64.one = bound
      omega
  rw [degrees, ← hCondition]
  split
  case isTrue hRange => simp only [hRange, and_true, Except.ok.injEq, eq_comm]
  case isFalse hRange => simp only [hRange, and_false, reduceCtorEq]

/-- The limits of latitudes and longitudes are numbers as they stand. -/
theorem Coordinate.value?_limits :
    (Binary64.ofInt (90 : Nat)).value? = some ((90 * Binary64.one : Nat) : Int) ∧
      (Binary64.ofInt (180 : Nat)).value? = some ((180 * Binary64.one : Nat) : Int) := by
  decide +kernel

/-- A coordinate is on the globe exactly if it is made of the two numbers it is checked for, and
these are within the limits of latitudes and longitudes. -/
theorem Coordinate.checked_eq_ok_iff {lat lon : Binary64} {c : Coordinate} :
    checked lat lon = .ok c ↔ c = ⟨lat, lon⟩ ∧ lat.Within 90 ∧ lon.Within 180 := by
  constructor
  · intro h
    obtain ⟨lat', hLat, hRest⟩ := Checks.bind_eq_ok.mp h
    obtain ⟨lon', hLon, hPair⟩ := Checks.bind_eq_ok.mp hRest
    obtain ⟨rfl, hLatWithin⟩ :=
      (degrees_eq_ok_iff value?_limits.1).mp (Checks.mapError_eq_ok.mp hLat)
    obtain ⟨rfl, hLonWithin⟩ :=
      (degrees_eq_ok_iff value?_limits.2).mp (Checks.mapError_eq_ok.mp hLon)
    exact ⟨(Except.ok.inj hPair).symm, hLatWithin, hLonWithin⟩
  · rintro ⟨rfl, hLat, hLon⟩
    refine Checks.bind_eq_ok.mpr ⟨lat, Checks.mapError_eq_ok.mpr ?_, ?_⟩
    · exact (degrees_eq_ok_iff value?_limits.1).mpr ⟨rfl, hLat⟩
    · refine Checks.bind_eq_ok.mpr ⟨lon, Checks.mapError_eq_ok.mpr ?_, rfl⟩
      exact (degrees_eq_ok_iff value?_limits.2).mpr ⟨rfl, hLon⟩

/-- A coordinate on the globe is made of the two numbers it is checked for, and both are finite. -/
theorem Coordinate.checked_eq_ok {lat lon : Binary64} {c : Coordinate}
    (h : checked lat lon = .ok c) :
    c = ⟨lat, lon⟩ ∧ lat.isFinite = true ∧ lon.isFinite = true := by
  obtain ⟨hPair, hLat, hLon⟩ := checked_eq_ok_iff.mp h
  exact ⟨hPair, hLat.isFinite, hLon.isFinite⟩

/-- A coordinate has a latitude and a longitude that are on the globe. -/
structure Coordinate.OnGlobe (c : Coordinate) : Prop where
  lat : c.lat.Within 90
  lon : c.lon.Within 180

theorem Coordinate.checked_self_iff {c : Coordinate} :
    checked c.lat c.lon = .ok c ↔ c.OnGlobe := by
  rw [checked_eq_ok_iff]
  exact ⟨fun h => ⟨h.2.1, h.2.2⟩, fun h => ⟨rfl, h.lat, h.lon⟩⟩

theorem Coordinate.checked_stable {lat lon : Binary64} {c : Coordinate}
    (h : checked lat lon = .ok c) : checked c.lat c.lon = .ok c := by
  obtain ⟨rfl, -, -⟩ := checked_eq_ok h
  exact h

namespace Rule

theorem profile_eq_ok {s name : String} (h : profile s = .ok name) :
    name = Text.trimmed s ∧ name.isEmpty = false := by
  simp only [profile] at h
  split at h
  case isTrue => cases h
  case isFalse hNonempty =>
    cases h
    exact ⟨rfl, by simpa using hNonempty⟩

theorem profile_eq_ok_iff {s name : String} :
    profile s = .ok name ↔ name ≠ "" ∧ Text.trimmed s = name := by
  constructor
  · intro h
    obtain ⟨rfl, hNonempty⟩ := profile_eq_ok h
    exact ⟨fun hEmpty => by simp [hEmpty] at hNonempty, rfl⟩
  · rintro ⟨hNonempty, rfl⟩
    simp [profile, hNonempty]

theorem profile_stable {s name : String} (h : profile s = .ok name) : profile name = .ok name := by
  obtain ⟨rfl, hNonempty⟩ := profile_eq_ok h
  simp only [profile, Text.trimmed_trimmed, hNonempty, Bool.false_eq_true, if_false]

/-- Weights are checked for their value. -/
theorem weight_eq_ok_iff {x y : Binary64} :
    weight x = .ok y ↔ y = x ∧ ∃ value, x.value? = some value ∧ 0 ≤ value := by
  have hZero : Binary64.zero.value? = some 0 := by decide +kernel
  have hCondition : (x.isFinite && Binary64.zero.atMost x) = true ↔
      ∃ value, x.value? = some value ∧ 0 ≤ value := by
    rw [← Binary64.isSome_value?]
    cases hx : x.value? with
    | none => simp
    | some value =>
      simp only [Option.isSome_some, Bool.true_and, Binary64.atMost_iff hZero hx,
        Option.some.injEq, exists_eq_left']
  rw [weight, ← hCondition]
  split
  case isTrue hRange => simp only [hRange, and_true, Except.ok.injEq, eq_comm]
  case isFalse hRange => simp only [hRange, and_false, reduceCtorEq]

theorem weight_eq_ok {x y : Binary64} (h : weight x = .ok y) : y = x ∧ x.isFinite = true := by
  obtain ⟨hSame, value, hValue, -⟩ := weight_eq_ok_iff.mp h
  exact ⟨hSame, by rw [← Binary64.isSome_value?, hValue, Option.isSome_some]⟩

theorem weight_stable {x y : Binary64} (h : weight x = .ok y) : weight y = .ok y := by
  obtain ⟨rfl, -⟩ := weight_eq_ok h
  exact h

/-- An endpoint is accepted as it stands, cleared or on the globe. -/
theorem endpoint_eq_ok_iff {new v : Option Coordinate} :
    endpoint new = .ok v ↔ new = v ∧ ∀ c ∈ v, c.OnGlobe := by
  cases new with
  | none =>
    refine ⟨?_, ?_⟩
    · rintro ⟨⟩
      exact ⟨rfl, nofun⟩
    · rintro ⟨rfl, -⟩
      rfl
  | some place =>
    refine Checks.map_eq_ok.trans ⟨?_, ?_⟩
    · rintro ⟨c, hChecked, rfl⟩
      obtain ⟨rfl, -⟩ := Coordinate.checked_eq_ok_iff.mp hChecked
      exact ⟨rfl, fun d hMem => Option.some.inj hMem ▸ Coordinate.checked_self_iff.mp hChecked⟩
    · rintro ⟨rfl, hGlobe⟩
      exact ⟨place, Coordinate.checked_self_iff.mpr (hGlobe place rfl), rfl⟩

theorem endpoint_stable {new : Option Coordinate} {v : Option Coordinate}
    (h : endpoint new = .ok v) : ∀ c ∈ v, Coordinate.checked c.lat c.lon = .ok c := by
  obtain ⟨rfl, hGlobe⟩ := endpoint_eq_ok_iff.mp h
  exact fun c hMem => Coordinate.checked_self_iff.mpr (hGlobe c hMem)

theorem accepted_eq_some_iff {ε α β : Type} {rule : α → Except ε β} {new : Option α} {b : β} :
    accepted rule new = some b ↔ ∃ a, new = some a ∧ rule a = .ok b := by
  simp only [accepted, Option.bind_eq_some_iff, Checks.toOption_eq_some]

/-- What a rule accepts has the property that all values have which it gives. -/
theorem accepted_holds {ε α β : Type} {rule : α → Except ε β} {P : β → Prop}
    (hRule : ∀ a b, rule a = .ok b → P b) {new : Option α} {b : β}
    (h : accepted rule new = some b) : P b := by
  obtain ⟨a, -, hAccepted⟩ := accepted_eq_some_iff.mp h
  exact hRule a b hAccepted

/-- A rule leaves alone what it accepts as it stands. -/
theorem accepted_of_forall {ε α : Type} {rule : α → Except ε α} {new : Option α}
    (h : ∀ v ∈ new, rule v = .ok v) : accepted rule new = new := by
  cases new with
  | none => rfl
  | some v => exact accepted_eq_some_iff.mpr ⟨v, rfl, h v rfl⟩

end Rule

/-- A field keeps a property that its old value and every new value have. -/
theorem assign_holds {α : Type} {same : α → α → Bool} {P : α → Prop} {old : α} {new : Option α}
    (hOld : P old) (hNew : ∀ a, new = some a → P a) : P (assign same old new).1 := by
  rcases assign_eq_or same old new with h | h
  · rw [h]
    exact hOld
  · exact hNew _ h

/-! ## Queries -/

namespace Query

/-- All values of a query are accepted as they stand, and its time is the beginning of a second. -/
structure Valid (q : Query) : Prop where
  origin : ∀ c ∈ q.origin, Coordinate.checked c.lat c.lon = .ok c
  destination : ∀ c ∈ q.destination, Coordinate.checked c.lat c.lon = .ok c
  time : q.time.nanos = 0
  accessProfile : Rule.profile q.accessProfile = .ok q.accessProfile
  egressProfile : Rule.profile q.egressProfile = .ok q.egressProfile
  accessWeight : Rule.weight q.accessWeight = .ok q.accessWeight
  egressWeight : Rule.weight q.egressWeight = .ok q.egressWeight

theorem valid_apply {q : Query} (h : q.Valid) (e : Edit) : (q.apply e).1.Valid := by
  rw [apply_query]
  refine ⟨?_, ?_, ?_, ?_, ?_, ?_, ?_⟩
  · exact assign_holds h.origin fun _ =>
      Rule.accepted_holds fun _ _ => Rule.endpoint_stable
  · exact assign_holds h.destination fun _ =>
      Rule.accepted_holds fun _ _ => Rule.endpoint_stable
  · refine assign_holds (P := fun t : Instant => t.nanos = 0) h.time fun t hNew => ?_
    obtain ⟨t', -, rfl⟩ := Option.map_eq_some_iff.mp hNew
    rfl
  · exact assign_holds (P := fun s => Rule.profile s = .ok s) h.accessProfile fun _ =>
      Rule.accepted_holds (P := fun s => Rule.profile s = .ok s) fun _ _ => Rule.profile_stable
  · exact assign_holds (P := fun s => Rule.profile s = .ok s) h.egressProfile fun _ =>
      Rule.accepted_holds (P := fun s => Rule.profile s = .ok s) fun _ _ => Rule.profile_stable
  · exact assign_holds (P := fun x => Rule.weight x = .ok x) h.accessWeight fun _ =>
      Rule.accepted_holds (P := fun x => Rule.weight x = .ok x) fun _ _ => Rule.weight_stable
  · exact assign_holds (P := fun x => Rule.weight x = .ok x) h.egressWeight fun _ =>
      Rule.accepted_holds (P := fun x => Rule.weight x = .ok x) fun _ _ => Rule.weight_stable

theorem valid_applyAll {q : Query} (h : q.Valid) (edits : List Edit) :
    (q.applyAll edits).Valid := by
  induction edits generalizing q with
  | nil => exact h
  | cons e edits ih => exact ih (valid_apply h e)

end Query

/-! ## Configurations -/

namespace Configuration

theorem checkProfile_eq_ok {field name : String} (h : checkProfile field name = .ok ()) :
    Rule.profile name = .ok name := by
  rw [checkProfile] at h
  split at h
  case h_1 => cases h
  case h_2 hAccepted =>
    split at h
    case isTrue hSame => rw [hAccepted, hSame]
    case isFalse => cases h

theorem checkWeight_eq_ok {field : String} {x : Binary64} (h : checkWeight field x = .ok ()) :
    Rule.weight x = .ok x := by
  rw [checkWeight] at h
  split at h
  case h_1 => cases h
  case h_2 hAccepted => rw [hAccepted, (Rule.weight_eq_ok hAccepted).1]

/-- A configuration has all its places, and the settings are accepted as they stand. -/
structure Checked (c : Configuration) : Prop where
  routePlace : ∃ place, c.routePlace = .ok place
  infoPlace : ∃ place, c.infoPlace = .ok place
  pagePlace : ∃ place, c.pagePlace = .ok place
  accessProfile : Rule.profile c.settings.accessProfile = .ok c.settings.accessProfile
  egressProfile : Rule.profile c.settings.egressProfile = .ok c.settings.egressProfile
  accessWeight : Rule.weight c.settings.accessWeight = .ok c.settings.accessWeight
  egressWeight : Rule.weight c.settings.egressWeight = .ok c.settings.egressWeight

theorem checked_of_check {c : Configuration} (h : c.check = .ok ()) : c.Checked := by
  obtain ⟨routePlace, hRoute, h⟩ := Checks.bind_eq_ok.mp h
  obtain ⟨infoPlace, hInfo, h⟩ := Checks.bind_eq_ok.mp h
  obtain ⟨pagePlace, hPage, h⟩ := Checks.bind_eq_ok.mp h
  obtain ⟨⟨⟩, hAccess, h⟩ := Checks.bind_eq_ok.mp h
  obtain ⟨⟨⟩, hEgress, h⟩ := Checks.bind_eq_ok.mp h
  obtain ⟨⟨⟩, hAccessWeight, hEgressWeight⟩ := Checks.bind_eq_ok.mp h
  exact ⟨⟨routePlace, hRoute⟩, ⟨infoPlace, hInfo⟩, ⟨pagePlace, hPage⟩,
    checkProfile_eq_ok hAccess, checkProfile_eq_ok hEgress, checkWeight_eq_ok hAccessWeight,
    checkWeight_eq_ok hEgressWeight⟩

end Configuration

namespace Query

theorem valid_start {c : Configuration} (hCheck : c.check = .ok ()) (now : Instant) :
    (start now c.settings).Valid := by
  have h := Configuration.checked_of_check hCheck
  exact ⟨fun c hMem => by simp [start] at hMem, fun c hMem => by simp [start] at hMem, rfl,
    h.accessProfile, h.egressProfile, h.accessWeight, h.egressWeight⟩

/-- The query that a configuration, a location and some edits make. -/
def reached (c : Configuration) (now : Instant) (location : Url) (edits : List Edit) : Query :=
  ((start now c.settings).apply (Link.edit location)).1.applyAll edits

theorem valid_reached {c : Configuration} (hCheck : c.check = .ok ()) (now : Instant)
    (location : Url) (edits : List Edit) : (reached c now location edits).Valid :=
  valid_applyAll (valid_apply (valid_start hCheck now) _) edits

end Query

end TripPlanner
