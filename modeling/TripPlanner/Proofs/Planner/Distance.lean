import TripPlanner.Proofs.Planner.Agreement

/-!
# Distances that are ignored

A planner that ignores the auxiliary distance still goes through the motions when an edit changes
nothing else: it compares the address bar and the latest request with the query. There is nothing
to do, since no link tells the distance: the address bar already shows the link (`Shown`), and a
complete query already is the latest one sent (`Agreed`). So a run without the distances differs
from the run itself in nothing but the distance (`run_withoutDistance`, `indifference`).
-/

namespace TripPlanner

/-- An edit that says nothing about the auxiliary distance. -/
def Edit.withoutDistance (e : Edit) : Edit := { e with auxiliaryDistance := none }

/-- An event with the auxiliary distance removed from its edit. An edit that says nothing else
becomes one that says nothing. -/
def Event.withoutDistance : Event → Event
  | .edit e => .edit e.withoutDistance
  | e => e

namespace Query

theorem apply_withoutDistance (q : Query) (e : Edit) :
    q.withoutDistance.apply e.withoutDistance =
      ((q.apply e).1.withoutDistance, ⟨(q.apply e).2.routing, false⟩) := rfl

theorem withoutDistance_apply_of_not_routing {q : Query} {e : Edit}
    (h : (q.apply e).2.routing = false) :
    (q.apply e).1.withoutDistance = q.withoutDistance := by
  have hAny : (q.withoutDistance.apply e.withoutDistance).2.any = false := by
    simp [apply_withoutDistance, Change.any, h]
  have hSame := apply_of_not_any hAny
  rwa [apply_withoutDistance] at hSame

end Query

namespace Planner

/-- A planner whose query has no auxiliary distance. -/
def withoutDistance (p : Planner) : Planner := { p with query := p.query.withoutDistance }

/-! ## One event -/

/-- What makes a planner indifferent: it ignores distances, the address bar shows the link of the
query, and the query is the latest one sent. -/
structure Undisturbed (p : Planner) : Prop where
  ignores : p.reaction = .ignore
  shown : p.Shown
  agreed : p.Agreed

theorem undisturbed_update {p : Planner} (h : p.Undisturbed) (e : Event) :
    (p.update e).planner.Undisturbed :=
  ⟨(update_reaction p e).trans h.ignores, shown_update h.shown e, agreed_update h.agreed e⟩

theorem send_withoutDistance (p : Planner) (again : Bool) :
    p.withoutDistance.send again = ((p.send again).1.withoutDistance, (p.send again).2) := by
  by_cases hInfo : p.info.isSome
  · rw [send_of_info hInfo, send_of_info (p := p.withoutDistance) hInfo]
    rfl
  · have hInert : p.info = none := by simpa using hInfo
    rw [send_of_inert hInert, send_of_inert (p := p.withoutDistance) hInert]

theorem select_withoutDistance (p : Planner) (index : Nat) :
    p.withoutDistance.select index = (p.select index).map withoutDistance := by
  change (p.rule.pick p.results index).map _ = ((p.rule.pick p.results index).map _).map _
  cases p.rule.pick p.results index with
  | error failure => rfl
  | ok results => rfl

/-- No edit sends a request again. -/
theorem resends_of_ignores {p : Planner} (h : p.reaction = .ignore) (e : Edit) :
    p.resends e = false := by
  simp [resends, h, DistanceReaction.resends]

/-- An edit that changes at most the distance finds nothing to do. -/
theorem edit_of_not_routing {p : Planner} (h : p.Undisturbed) {e : Edit}
    (hRouting : (p.query.apply e).2.routing = false) :
    (p.edit e).planner = p.edited e ∧ (p.edit e).effects = [] := by
  by_cases hAny : (p.query.apply e).2.any = true
  · have hSame : (p.edited e).withoutDistance = p.withoutDistance :=
      congrArg (fun q => { p with query := q }) (Query.withoutDistance_apply_of_not_routing hRouting)
    -- Neither the link nor the request depends on the distance.
    have hShown : (p.edited e).Shown := by
      change (p.edited e).withoutDistance.Shown
      rw [hSame]
      exact h.shown
    have hAgreed : (p.edited e).Agreed := by
      change (p.edited e).withoutDistance.Agreed
      rw [hSame]
      exact h.agreed
    rw [(edit_of_any hAny).1, (edit_of_any hAny).2, sync_of_shown hShown,
      resends_of_ignores h.ignores, send_of_agreed hAgreed]
    exact ⟨rfl, rfl⟩
  · have hNone : (p.query.apply e).2.any = false := (Bool.not_eq_true _).mp hAny
    rw [edit_of_not_any hNone, edited, Query.apply_of_not_any hNone]
    exact ⟨rfl, rfl⟩

theorem edit_withoutDistance {p : Planner} (h : p.Undisturbed) (e : Edit) :
    Commutes withoutDistance p (.edit e) (.edit e.withoutDistance) := by
  change (p.withoutDistance.edit e.withoutDistance).planner = (p.edit e).planner.withoutDistance ∧
    (p.withoutDistance.edit e.withoutDistance).effects = (p.edit e).effects
  have hApply := Query.apply_withoutDistance p.query e
  by_cases hRouting : (p.query.apply e).2.routing = true
  · -- Both planners have something to do, and it is the same.
    have hAny : (p.query.apply e).2.any = true := by simp [Change.any, hRouting]
    have hAny' : (p.withoutDistance.query.apply e.withoutDistance).2.any = true := by
      change (p.query.withoutDistance.apply e.withoutDistance).2.any = true
      simp [hApply, Change.any, hRouting]
    have hEdited : (p.withoutDistance.edited e.withoutDistance).sync =
        (p.edited e).sync.withoutDistance := rfl
    rw [(edit_of_any hAny).1, (edit_of_any hAny).2, (edit_of_any hAny').1, (edit_of_any hAny').2,
      resends_of_ignores h.ignores, resends_of_ignores (p := p.withoutDistance) h.ignores, hEdited,
      send_withoutDistance]
    exact ⟨rfl, rfl⟩
  · have hNone : (p.query.apply e).2.routing = false := (Bool.not_eq_true _).mp hRouting
    have hAny' : (p.withoutDistance.query.apply e.withoutDistance).2.any = false := by
      change (p.query.withoutDistance.apply e.withoutDistance).2.any = false
      simp [hApply, Change.any, hNone]
    obtain ⟨hPlanner, hEffects⟩ := edit_of_not_routing h hNone
    rw [edit_of_not_any hAny', hPlanner, hEffects]
    refine ⟨?_, rfl⟩
    exact congrArg (fun q => { p with query := q })
      (Query.withoutDistance_apply_of_not_routing hNone).symm

/-- One event without the distance does the same but for the distance. -/
theorem update_withoutDistance {p : Planner} (h : p.Undisturbed) (e : Event) :
    Commutes withoutDistance p e e.withoutDistance := by
  cases e with
  | mount => exact ⟨rfl, rfl⟩
  | edit e => exact edit_withoutDistance h e
  | select index => exact commutes_select (select_withoutDistance p index)
  | refresh => exact commutes_refresh (send_withoutDistance p true)
  | info answer =>
    cases answer with
    | error fault => exact ⟨rfl, rfl⟩
    | ok description =>
      change (({ p with info := some description } : Planner).withoutDistance.send false).1 = _ ∧
        (({ p with info := some description } : Planner).withoutDistance.send false).2 = _
      rw [send_withoutDistance]
      exact ⟨rfl, rfl⟩
  | routes r a =>
    change (p.withoutDistance.update (.routes r a)).planner = _ ∧
      (p.withoutDistance.update (.routes r a)).effects = _
    by_cases hRequest : p.request = some r
    · rw [update_routes_of_eq hRequest, update_routes_of_eq (p := p.withoutDistance) hRequest]
      exact ⟨rfl, rfl⟩
    · rw [update_routes_of_ne hRequest, update_routes_of_ne (p := p.withoutDistance) hRequest]
      exact ⟨rfl, rfl⟩

/-! ## Runs -/

theorem run_withoutDistance {p : Planner} (h : p.Undisturbed) (events : List Event) :
    p.withoutDistance.run (events.map Event.withoutDistance) = (p.run events).withoutDistance ∧
      p.withoutDistance.emitted (events.map Event.withoutDistance) = p.emitted events :=
  run_view (P := Undisturbed) (fun _ e hp => undisturbed_update hp e)
    (fun _ e hp => update_withoutDistance hp e) h events

/-- A planner starts without a distance: neither settings nor links tell one. -/
theorem withoutDistance_start {c : Configuration} {location : Url} {now : Instant} {p : Planner}
    (hStart : start c location now = .ok p) : p.withoutDistance = p := by
  obtain ⟨place, -, rfl⟩ := start_eq_ok hStart
  rfl

theorem undisturbed_mount {c : Configuration} (hIgnores : c.reaction = .ignore) {location : Url}
    {now : Instant} {p : Planner} (hStart : start c location now = .ok p) :
    (p.update .mount).planner.Undisturbed := by
  refine ⟨?_, shown_mount p, agreed_update (agreed_start hStart) .mount⟩
  obtain ⟨place, -, rfl⟩ := start_eq_ok hStart
  exact hIgnores

/-- **Distances that are ignored have no influence.** A planner whose configuration ignores
auxiliary distances goes through a run that begins when it is shown, and through the same run with
the distance removed from every edit. Event by event it asks for the same, and in the end results,
description of the server and address bar are the same, and the query is the same but for the
distance. -/
theorem indifference {c : Configuration} (hIgnores : c.reaction = .ignore) {location : Url}
    {now : Instant} {p : Planner} (hStart : start c location now = .ok p) (events : List Event) :
    p.emitted ((.mount :: events).map Event.withoutDistance) = p.emitted (.mount :: events) ∧
      (p.run ((.mount :: events).map Event.withoutDistance)).results =
        (p.run (.mount :: events)).results ∧
      (p.run ((.mount :: events).map Event.withoutDistance)).info =
        (p.run (.mount :: events)).info ∧
      (p.run ((.mount :: events).map Event.withoutDistance)).bar =
        (p.run (.mount :: events)).bar ∧
      (p.run ((.mount :: events).map Event.withoutDistance)).query =
        (p.run (.mount :: events)).query.withoutDistance := by
  have hMounted : (p.update .mount).planner.withoutDistance = (p.update .mount).planner :=
    congrArg (fun p => (p.update .mount).planner) (withoutDistance_start hStart)
  obtain ⟨hRun, hEmitted⟩ := run_withoutDistance (undisturbed_mount hIgnores hStart) events
  rw [hMounted] at hRun hEmitted
  have hPlanner : p.run ((.mount :: events).map Event.withoutDistance) =
      (p.run (.mount :: events)).withoutDistance := hRun
  rw [hPlanner]
  exact ⟨congrArg ((p.update .mount).effects :: ·) hEmitted, rfl, rfl, rfl, rfl⟩

/-- The usual planner keeps a distance that is set. It asks for as much as one for which an edit
comes that says nothing. -/
theorem indifference_usual :
    Configuration.reaction {} = .ignore ∧ start {} usualPage newYear = .ok usual ∧
      usual.emitted [.mount, .info (.ok usualServer), .edit usualTrip, .edit {}] =
        usual.emitted [.mount, .info (.ok usualServer), .edit usualTrip,
          .edit (.toDistance (some (.ofInt 500)))] ∧
      (usual.run [.mount, .info (.ok usualServer), .edit usualTrip,
        .edit (.toDistance (some (.ofInt 500)))]).query.auxiliaryDistance.isSome := by
  obtain ⟨hEmitted, -⟩ := indifference (c := {}) rfl start_usual
    [.info (.ok usualServer), .edit usualTrip, .edit (.toDistance (some (.ofInt 500)))]
  refine ⟨rfl, start_usual, hEmitted, ?_⟩
  rw [run_query]
  decide +kernel

end Planner

end TripPlanner
