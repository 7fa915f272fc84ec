import TripPlanner.Proofs.Planner.Events
import TripPlanner.Proofs.Planner.Start
import TripPlanner.Proofs.Results.Picks

/-!
# The picked itinerary along runs

Whatever happens to a planner, its results say consistently which itinerary is picked (`Picked`):
index and marks agree, there are itineraries only where a request is on its way or has succeeded,
and a planner whose user may pick possible itineraries only never has another one picked. Each
event keeps this, turn by turn (`picked_update`), and an answer that counts picks the first possible
itinerary (`selection`).
-/

namespace TripPlanner.Planner

/-- The results of a planner say consistently, and by its rule, which itinerary is picked. -/
structure Picked (p : Planner) : Prop where
  marked : p.results.Marked
  bare : p.results.Bare
  sound : p.rule.Sound p.results

theorem picked_of_noSelection {p : Planner} (hMarked : p.results.Marked) (hBare : p.results.Bare)
    (hNone : p.results.selected = Results.noSelection) : p.Picked := by
  refine ⟨hMarked, hBare, fun _ i hPath => ?_⟩
  rw [Results.selectedPath, Results.selection_of_noSelection hNone] at hPath
  cases hPath

theorem picked_start {c : Configuration} {location : Url} {now : Instant} {p : Planner}
    (hStart : start c location now = .ok p) : p.Picked := by
  obtain ⟨place, -, rfl⟩ := start_eq_ok hStart
  exact picked_of_noSelection Results.marked_idle (fun _ => rfl) rfl

theorem picked_update {p : Planner} (h : p.Picked) (e : Event) :
    (p.update e).planner.Picked := by
  have hSame : (p.update e).planner.results = p.results → (p.update e).planner.Picked := by
    intro hResults
    refine ⟨hResults ▸ h.marked, hResults ▸ h.bare, ?_⟩
    rw [update_rule, hResults]
    exact h.sound
  cases update_turn p e with
  | kept hResults _ => exact hSame hResults
  | asked _ hResults _ => exact hSame hResults
  | sent r _ _ hResults _ =>
    refine picked_of_noSelection ?_ ?_ (by rw [hResults]; rfl)
    · rw [hResults]
      exact Results.marked_fetching r _
    · rw [hResults]
      rintro (hIdle | hFailed)
      · cases hIdle
      · cases hFailed
  | settled r a _ _ hResults _ =>
    cases a with
    | error fault =>
      refine picked_of_noSelection ?_ ?_ (by rw [hResults]; rfl)
      · rw [hResults]
        exact Results.marked_failed r
      · rw [hResults]
        exact fun _ => rfl
    | ok paths =>
      have hFirst := Results.foremost_succeeded r paths
      refine ⟨?_, ?_, ?_⟩
      · rw [hResults]
        exact Results.marked_succeeded r paths
      · rw [hResults]
        rintro (hIdle | hFailed)
        · cases hIdle
        · cases hFailed
      · rw [hResults]
        exact fun _ _ hPath => Results.isPossible_of_foremost hFirst hPath
  | picked index _ hPick _ =>
    refine ⟨SelectionRule.marked_pick h.marked hPick, ?_, ?_⟩
    · -- Without itineraries there is nothing to pick.
      intro hEmpty
      obtain ⟨hIndex, -, hProgress, -⟩ := SelectionRule.pick_eq_ok hPick
      rw [hProgress] at hEmpty
      rw [h.bare hEmpty] at hIndex
      cases hIndex
    · rw [update_rule]
      exact SelectionRule.sound_pick hPick

theorem picked_run {p : Planner} (h : p.Picked) (events : List Event) : (p.run events).Picked :=
  run_induction h (fun _ e hPicked => picked_update hPicked e) events

/-- **Which itinerary is picked.** After every run the index is the one that stands for no pick and
no itinerary is marked, or it is the index of an itinerary and exactly that one is marked; before
the first request and after a failed one there are no itineraries; and where the user may pick
possible itineraries only, the picked one is possible. An answer that brings itineraries and counts
is shown with the first possible one picked, or without a pick if none is possible. -/
theorem selection {c : Configuration} {location : Url} {now : Instant} {p : Planner}
    (hStart : start c location now = .ok p) (events : List Event) :
    (p.run events).results.Marked ∧ (p.run events).results.Bare ∧
      c.selectionRule.Sound (p.run events).results ∧
      ∀ r paths, (p.run events).request = some r →
        (p.run (events ++ [.routes r (.ok paths)])).results.progress = .succeeded ∧
          (p.run (events ++ [.routes r (.ok paths)])).results.paths.map Results.unpicked =
            paths.map Results.unpicked ∧
          (p.run (events ++ [.routes r (.ok paths)])).results.Foremost := by
  have hPicked := picked_run (picked_start hStart) events
  have hRule : (p.run events).rule = c.selectionRule := by
    obtain ⟨place, -, rfl⟩ := start_eq_ok hStart
    exact run_rule _ events
  refine ⟨hPicked.marked, hPicked.bare, hRule ▸ hPicked.sound, fun r paths hRequest => ?_⟩
  rw [run_concat, update_routes_of_eq hRequest]
  exact ⟨rfl, Results.map_unpicked_succeeded r paths, Results.foremost_succeeded r paths⟩

/-- The usual planner gets an impossible itinerary and a possible one, and the latter is picked. -/
theorem selection_usual : ∃ r,
    (usual.run [.info (.ok usualServer), .edit usualTrip]).request = some r ∧
      (usual.run ([.info (.ok usualServer), .edit usualTrip] ++
        [.routes r (.ok [.plain false, .plain true])])).results.Foremost := by
  have hComplete : (usual.run [.info (.ok usualServer), .edit usualTrip]).query.isComplete := by
    decide +kernel
  obtain ⟨r, hRequest⟩ := exists_request hComplete
  obtain ⟨-, -, -, hAnswer⟩ := selection start_usual [.info (.ok usualServer), .edit usualTrip]
  exact ⟨r, hRequest, (hAnswer r [.plain false, .plain true] hRequest).2.2⟩

end TripPlanner.Planner
