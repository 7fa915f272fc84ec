import TripPlanner.Planner.Basic

/-!
# How planners start

A planner starts whenever the place where routes are requested can be built
(`start_of_routePlace`), and then it is at the location it is given, inert and without results
(`start_eq_ok`). `Planner.usual` is the one that the usual configuration starts on its own page.
-/

namespace TripPlanner.Planner

/-- The planner that starts at a location where routes are requested at some place. -/
def initial (c : Configuration) (place location : Url) (now : Instant) : Planner where
  requests := ⟨c.linkFormat, place, c.keepsPaths⟩
  rule := c.selectionRule
  reaction := c.reaction
  query := ((Query.start now c.settings).apply (Link.edit location)).1
  results := .idle
  info := none
  bar := { location }

theorem start_of_routePlace {c : Configuration} {place : Url} (h : c.routePlace = .ok place)
    (location : Url) (now : Instant) :
    start c location now = .ok (initial c place location now) := by
  unfold start
  rw [h]
  rfl

theorem start_eq_ok {c : Configuration} {location : Url} {now : Instant} {p : Planner}
    (h : start c location now = .ok p) :
    ∃ place, c.routePlace = .ok place ∧ p = initial c place location now := by
  cases hPlace : c.routePlace with
  | error problem =>
    unfold start at h
    rw [hPlace] at h
    cases h
  | ok place =>
    rw [start_of_routePlace hPlace] at h
    cases h
    exact ⟨place, rfl, rfl⟩

/-- A planner starts without anything from the server. -/
theorem start_inert {c : Configuration} {location : Url} {now : Instant} {p : Planner}
    (h : start c location now = .ok p) : p.info = none ∧ p.results = .idle := by
  obtain ⟨place, -, rfl⟩ := start_eq_ok h
  exact ⟨rfl, rfl⟩

/-! ## The usual planner -/

/-- The page of the usual configuration. -/
def usualPage : Url :=
  ⟨"http".toList, some ⟨[], none, .name "localhost".toList, some 8989⟩, .segments [[]], none, none⟩

/-- Where the usual configuration requests routes. -/
def usualRoutePlace : Url := { usualPage with path := .segments ["route".toList] }

/-- The beginning of the year 2024. -/
def newYear : Instant := ⟨⟨2024, 1, 1, rfl⟩, ⟨0, Nat.zero_lt_succ _⟩, ⟨0, Nat.zero_lt_succ _⟩⟩

/-- The planner of the usual configuration on its page. -/
def usual : Planner := initial {} usualRoutePlace usualPage newYear

theorem routePlace_usual : Configuration.routePlace {} = .ok usualRoutePlace := by
  have hPlace : (Configuration.routePlace {}).toOption = some usualRoutePlace := by decide +kernel
  cases h : Configuration.routePlace {} with
  | error problem =>
    rw [h] at hPlace
    cases hPlace
  | ok place =>
    rw [h] at hPlace
    cases hPlace
    rfl

theorem start_usual : start {} usualPage newYear = .ok usual :=
  start_of_routePlace routePlace_usual usualPage newYear

/-- An edit that makes a query complete. -/
def usualTrip : Edit := .endpoints ⟨.ofInt 1, .ofInt 2⟩ ⟨.ofInt 3, .ofInt 4⟩

/-- A server that says nothing about itself. -/
def usualServer : ServiceInfo := ⟨[], none, none, [], []⟩

end TripPlanner.Planner
