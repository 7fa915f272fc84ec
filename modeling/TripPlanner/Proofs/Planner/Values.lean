import TripPlanner.Configuration.File
import TripPlanner.Proofs.Link.RoundTrip
import TripPlanner.Proofs.Planner.Events
import TripPlanner.Proofs.Planner.Start

/-!
# Values that enter planners

Values enter the query of a planner from the configuration, from the location at which the planner
starts, and by edits. Each way has checks of its own, and whatever passes them is a value that links
and requests give back (`Query.Encodable`), spelled out here without the checks: the checks accept
exactly such values (`Query.encodable_iff_valid`). So however the events of a run come, no other
value gets in, and a configuration that passes its check always starts a planner (`encodable`).
-/

namespace TripPlanner

theorem Rule.weight_self_iff {x : Binary64} :
    weight x = .ok x ↔ ∃ value, x.value? = some value ∧ 0 ≤ value := by
  rw [weight_eq_ok_iff]
  exact and_iff_right rfl

namespace Query

/-- Every value of a query is one that a link gives back. -/
structure Encodable (q : Query) : Prop where
  origin : ∀ c ∈ q.origin, c.OnGlobe
  destination : ∀ c ∈ q.destination, c.OnGlobe
  time : q.time.nanos = 0
  accessProfile : q.accessProfile ≠ "" ∧ Text.trimmed q.accessProfile = q.accessProfile
  egressProfile : q.egressProfile ≠ "" ∧ Text.trimmed q.egressProfile = q.egressProfile
  accessWeight : ∃ value, q.accessWeight.value? = some value ∧ 0 ≤ value
  egressWeight : ∃ value, q.egressWeight.value? = some value ∧ 0 ≤ value
  rangeSpan : TimeSpan.ofText q.rangeSpan.text = .ok q.rangeSpan
  streetLimit : TimeSpan.ofText q.streetLimit.text = .ok q.streetLimit

/-- The checks accept exactly the values that links give back. -/
theorem encodable_iff_valid {q : Query} : q.Encodable ↔ q.Valid := by
  constructor
  · intro h
    exact ⟨fun c hMem => Coordinate.checked_self_iff.mpr (h.origin c hMem),
      fun c hMem => Coordinate.checked_self_iff.mpr (h.destination c hMem), h.time,
      Rule.profile_eq_ok_iff.mpr h.accessProfile, Rule.profile_eq_ok_iff.mpr h.egressProfile,
      Rule.weight_self_iff.mpr h.accessWeight, Rule.weight_self_iff.mpr h.egressWeight⟩
  · intro h
    exact ⟨fun c hMem => Coordinate.checked_self_iff.mp (h.origin c hMem),
      fun c hMem => Coordinate.checked_self_iff.mp (h.destination c hMem), h.time,
      Rule.profile_eq_ok_iff.mp h.accessProfile, Rule.profile_eq_ok_iff.mp h.egressProfile,
      Rule.weight_self_iff.mp h.accessWeight, Rule.weight_self_iff.mp h.egressWeight,
      TimeSpan.ofText_text _, TimeSpan.ofText_text _⟩

end Query

/-- A configuration that is read from a file has passed its check. -/
theorem Configuration.check_of_ofFile {file : String} {octets : Option (List UInt8)}
    {c : Configuration} (h : ofFile file octets = .ok c) : c.check = .ok () := by
  obtain ⟨content, -, h⟩ := Checks.bind_eq_ok.mp h
  obtain ⟨read, -, h⟩ := Checks.bind_eq_ok.mp h
  obtain ⟨⟨⟩, hCheck, h⟩ := Checks.bind_eq_ok.mp h
  exact Except.ok.inj h ▸ hCheck

namespace Planner

theorem valid_start {c : Configuration} (hCheck : c.check = .ok ()) {location : Url} {now : Instant}
    {p : Planner} (hStart : start c location now = .ok p) : p.query.Valid := by
  obtain ⟨place, -, rfl⟩ := start_eq_ok hStart
  exact Query.valid_apply (Query.valid_start hCheck now) _

theorem valid_update {p : Planner} (h : p.query.Valid) (e : Event) :
    (p.update e).planner.query.Valid := by
  rw [update_query]
  cases e with
  | edit e => exact Query.valid_apply h e
  | _ => exact h

theorem valid_run {c : Configuration} (hCheck : c.check = .ok ()) {location : Url} {now : Instant}
    {p : Planner} (hStart : start c location now = .ok p) (events : List Event) :
    (p.run events).query.Valid :=
  run_induction (P := fun p => p.query.Valid) (valid_start hCheck hStart)
    (fun _ e h => valid_update h e) events

/-- **Which values enter planners.** A configuration that is read from a file has passed its check.
One that has passed its check has all its places and starts a planner at every location and every
time, and after every run each value of the planner's query is one that links give back. -/
theorem encodable (c : Configuration) :
    (∀ file octets, Configuration.ofFile file octets = .ok c → c.check = .ok ()) ∧
      (c.check = .ok () →
        (∃ place, c.routeUrl = .ok place) ∧ (∃ place, c.infoUrl = .ok place) ∧
          (∃ place, c.pageUrl = .ok place) ∧
          ∀ location now, ∃ p, start c location now = .ok p ∧
            ∀ events, (p.run events).query.Encodable) := by
  refine ⟨fun file octets h => Configuration.check_of_ofFile h, fun hCheck => ?_⟩
  have hChecked := Configuration.checked_of_check hCheck
  obtain ⟨routePlace, hRoute⟩ := hChecked.routePlace
  obtain ⟨infoPlace, hInfo⟩ := hChecked.infoPlace
  obtain ⟨pagePlace, hPage⟩ := hChecked.pagePlace
  refine ⟨⟨routePlace, Checks.mapError_eq_ok.mp hRoute⟩, ⟨infoPlace, Checks.mapError_eq_ok.mp hInfo⟩,
    ⟨pagePlace, Checks.mapError_eq_ok.mp hPage⟩, fun location now => ?_⟩
  have hStart := start_of_routePlace hRoute location now
  exact ⟨_, hStart, fun events => Query.encodable_iff_valid.mpr (valid_run hCheck hStart events)⟩

/-- Edits with values that are no numbers, or none that a link gives back. -/
def unfit : Edit where
  origin := some (some ⟨.nan, .infinite true⟩)
  accessProfile := some " "
  accessWeight := some .nan
  egressWeight := some (.ofInt (-1))

/-- An empty file holds the usual configuration, whose planner takes none of the unfit values. -/
theorem encodable_usual : ∃ c : Configuration,
    Configuration.ofFile "planner.toml" (some []) = .ok c ∧ c.check = .ok () ∧
      ∃ p, start c usualPage newYear = .ok p ∧
        (p.run [.mount, .edit usualTrip, .edit unfit]).query.Encodable := by
  have hRead : (Configuration.ofFile "planner.toml" (some [])).toOption = some {} := by
    decide +kernel
  have hFile := Checks.toOption_eq_some.mp hRead
  have hCheck := (encodable {}).1 _ _ hFile
  obtain ⟨-, -, -, hStarts⟩ := (encodable {}).2 hCheck
  obtain ⟨p, hStart, hRun⟩ := hStarts usualPage newYear
  exact ⟨{}, hFile, hCheck, p, hStart, hRun _⟩

end Planner

end TripPlanner
