import TripPlanner.Proofs.Query.Writes

/-!
# What links say is accepted

Values are checked twice: when a link is read and when an edit is applied. Whatever a text is, a
value that is read from it passes the second check as it stands (`Coordinate.onGlobe_ofText`,
`weight_of_weight?`, `profile_of_profile?`), so an edit read from a link writes all that it says,
the time in whole seconds (`writes_edit`), and a query takes all of it (`accepted_in_full`).
-/

namespace TripPlanner

/-- A coordinate that is read is on the globe. -/
theorem Coordinate.onGlobe_ofText {s : String} {c : Coordinate} (h : ofText s = .ok c) :
    c.OnGlobe := by
  unfold ofText at h
  split at h
  case h_1 =>
    obtain ⟨lat, -, h⟩ := Checks.bind_eq_ok.mp h
    obtain ⟨lon, -, hChecked⟩ := Checks.bind_eq_ok.mp h
    exact checked_self_iff.mp (checked_stable hChecked)
  case h_2 => cases h

/-- The edit with its time in whole seconds. -/
def Edit.inSeconds (e : Edit) : Edit := { e with time := e.time.map Instant.wholeSecond }

namespace Link

theorem profile_of_profile? {s name : String} (h : profile? s = some name) :
    Rule.profile name = .ok name :=
  Rule.profile_stable (Checks.toOption_eq_some.mp h)

theorem weight_of_weight? {s : String} {x : Binary64} (h : weight? s = some x) :
    Rule.weight x = .ok x := by
  obtain ⟨y, -, hRule⟩ := Option.bind_eq_some_iff.mp h
  exact Rule.weight_stable (Checks.toOption_eq_some.mp hRule)

theorem endpoint_of_point? {s : String} {c : Coordinate} (h : point? s = some c) :
    Rule.endpoint (some c) = .ok (some c) := by
  have hGlobe := Coordinate.onGlobe_ofText (Checks.toOption_eq_some.mp h)
  refine Rule.endpoint_eq_ok_iff.mpr ⟨rfl, fun d hMem => ?_⟩
  exact Option.some.inj hMem ▸ hGlobe

/-- What the last value of a name stands for has a property that all values have which are read. -/
theorem last_holds {α : Type} {name : String} {read : String → Option α} {P : α → Prop}
    (hRead : ∀ {s v}, read s = some v → P v) {ps : List (String × String)} :
    ∀ v ∈ last name read ps, P v := by
  intro v hMem
  obtain ⟨s, -, hValue⟩ := Option.bind_eq_some_iff.mp hMem
  exact hRead hValue

/-- An endpoint that is read from the points of a link is accepted as it stands. -/
theorem endpoint_of_points {values : List String} {i : Nat} :
    ∀ v ∈ ((values.map point?)[i]?.bind id).map some, Rule.endpoint v = .ok v := by
  intro v hMem
  obtain ⟨c, hPoint, rfl⟩ := Option.map_eq_some_iff.mp hMem
  obtain ⟨point, hPlace, rfl⟩ := Option.bind_eq_some_iff.mp hPoint
  rw [List.getElem?_map] at hPlace
  obtain ⟨s, -, hRead⟩ := Option.map_eq_some_iff.mp hPlace
  exact endpoint_of_point? hRead

theorem writes_edit (u : Url) : (edit u).writes = (edit u).inSeconds := by
  have hOrigin : Rule.accepted Rule.endpoint (edit u).origin = (edit u).origin :=
    Rule.accepted_of_forall endpoint_of_points
  have hDestination : Rule.accepted Rule.endpoint (edit u).destination = (edit u).destination :=
    Rule.accepted_of_forall endpoint_of_points
  have hProfile : ∀ name, Rule.accepted Rule.profile (last name profile? (pairs u)) =
      last name profile? (pairs u) := fun _ =>
    Rule.accepted_of_forall (last_holds profile_of_profile?)
  have hWeight : ∀ name, Rule.accepted Rule.weight (last name weight? (pairs u)) =
      last name weight? (pairs u) := fun _ =>
    Rule.accepted_of_forall (last_holds weight_of_weight?)
  have hAccess : Rule.accepted Rule.profile (edit u).accessProfile = (edit u).accessProfile :=
    hProfile _
  have hEgress : Rule.accepted Rule.profile (edit u).egressProfile = (edit u).egressProfile :=
    hProfile _
  have hAccessWeight : Rule.accepted Rule.weight (edit u).accessWeight = (edit u).accessWeight :=
    hWeight _
  have hEgressWeight : Rule.accepted Rule.weight (edit u).egressWeight = (edit u).egressWeight :=
    hWeight _
  rw [Edit.writes, Edit.inSeconds, hOrigin, hDestination, hAccess, hEgress, hAccessWeight,
    hEgressWeight]

theorem takes_edit (u : Url) (q : Query) : q.Takes (edit u).inSeconds (q.apply (edit u)).1 := by
  rw [← writes_edit]
  exact q.takes_apply nofun

/-- **What a link says is accepted in full.** Whatever URL a link is, applying the edit that is read
from it refuses none of its values: the edit is written as it stands, its time in whole seconds.
Every query then has the values of the link, as far as edits can tell, and its own values where the
link has none; its auxiliary distance is not touched. So a planner that starts at a link has, field
by field, what the link says, or else what the configuration says. -/
theorem accepted_in_full (u : Url) :
    (edit u).writes = (edit u).inSeconds ∧
      (∀ q : Query, q.Takes (edit u).inSeconds (q.apply (edit u)).1 ∧
        (q.apply (edit u)).1.auxiliaryDistance = q.auxiliaryDistance) ∧
      ∀ c now p, Planner.start c u now = .ok p →
        (Query.start now c.settings).Takes (edit u).inSeconds p.query ∧
          p.query.auxiliaryDistance = none := by
  refine ⟨writes_edit u, fun q => ⟨takes_edit u q, rfl⟩, fun c now p hStart => ?_⟩
  obtain ⟨place, -, rfl⟩ := Planner.start_eq_ok hStart
  exact ⟨takes_edit u _, rfl⟩

/-- A link with half a second in its time and a weight that is negative: the second counts, and the
weight is the usual one. -/
theorem accepted_in_full_usual :
    let u := ofText ("?point=1,2&pt.beta_access_time=-1" ++
      "&pt.earliest_departure_time=2024-01-01T00:00:00.5Z")
    ∃ p, Planner.start {} u Planner.newYear = .ok p ∧
      (Query.start Planner.newYear ({} : Configuration).settings).Takes
        { origin := some (some ⟨.ofInt 1, .ofInt 2⟩), time := some Planner.newYear } p.query ∧
      p.query.auxiliaryDistance = none := by
  intro u
  have hStart := Planner.start_of_routePlace Planner.routePlace_usual u Planner.newYear
  have hEdit : (edit u).inSeconds =
      { origin := some (some ⟨.ofInt 1, .ofInt 2⟩), time := some Planner.newYear } := by
    decide +kernel
  refine ⟨_, hStart, ?_⟩
  rw [← hEdit]
  exact (accepted_in_full u).2.2 {} Planner.newYear _ hStart

end Link

end TripPlanner
