import TripPlanner.Proofs.Planner.Agreement

/-!
# Requests that are sent twice in a row

A planner compares the request of its query with the one its results are about, and sends it if the
two differ. That this keeps it from sending a request twice in a row takes an invariant: whatever
answers, failures and edits lie in between, the results are about the latest request that the run
has sent (`latest_requested`). What remains are the two events that send a request nevertheless:
the user asks for it, or sets an auxiliary distance where that is asked for (`repetition`).

* `Planner.requested`: the requests that a run sends, in order.
* `requested_update`: what one event does with requests.
-/

namespace TripPlanner

/-- The request for routes that an effect sends, if it sends one. -/
def Effect.request? : Effect → Option String
  | .fetchInfo => none
  | .fetchRoutes r => some r

namespace Planner

/-- The requests for routes that a run sends, in order. -/
def requested (p : Planner) : List Event → List String
  | [] => []
  | e :: events =>
    (p.update e).effects.filterMap Effect.request? ++ (p.update e).planner.requested events

theorem requested_concat (p : Planner) (events : List Event) (e : Event) :
    p.requested (events ++ [e]) =
      p.requested events ++ ((p.run events).update e).effects.filterMap Effect.request? := by
  induction events generalizing p with
  | nil => simp [requested, run]
  | cons first events ih =>
    simp only [List.cons_append, requested, ih, List.append_assoc]
    rfl

/-! ## One event -/

theorem update_request (p : Planner) (e : Event) :
    (p.update e).planner.request = p.requests.canonical (e.onQuery p.query) := by
  rw [request, update_requests, update_query]

/-- What an event does with requests. Either it sends none, and the results are about the same
request as before, or it sends the one of the query after it. -/
theorem requested_update {p : Planner} (h : p.Agreed) (e : Event) :
    ((p.update e).effects.filterMap Effect.request? = [] ∧
      (p.info.isSome → (p.update e).planner.results.request = p.results.request)) ∨
    ∃ r, (p.update e).effects = [.fetchRoutes r] ∧ (p.update e).planner.info.isSome ∧
      (p.update e).planner.request = some r ∧
      (p.update e).planner.results.request = some r := by
  cases update_turn p e with
  | kept hResults hEffects => exact Or.inl ⟨by rw [hEffects]; rfl, fun _ => by rw [hResults]⟩
  | asked _ hResults hEffects => exact Or.inl ⟨by rw [hEffects]; rfl, fun _ => by rw [hResults]⟩
  | sent r hInfo hRequest hResults hEffects =>
    exact Or.inr ⟨r, hEffects, hInfo, hRequest, by rw [hResults]; rfl⟩
  | settled r a _ hRequest hResults hEffects =>
    -- An answer counts only if it is one to the request that the results are about.
    refine Or.inl ⟨by rw [hEffects]; rfl, fun hInfo => ?_⟩
    rw [hResults, Requests.settle_request, h hInfo (isComplete_of_request hRequest), hRequest]
  | picked _ _ hPick hEffects =>
    exact Or.inl ⟨by rw [hEffects]; rfl, fun _ => (SelectionRule.pick_eq_ok hPick).2.1⟩

theorem resends_iff {p : Planner} {e : Edit} :
    p.resends e = true ↔ p.reaction = .refetch ∧ e.SetsDistance p.query := by
  rw [← Query.auxiliary_and_isSome_iff]
  simp [resends, DistanceReaction.resends, and_left_comm]

/-- An event that sends the request which the results are about has been told to. -/
theorem told_of_resent {p : Planner} {e : Event} {r : String} (hLatest : p.results.request = some r)
    (hRequest : (p.update e).planner.request = some r)
    (hEffects : (p.update e).effects = [.fetchRoutes r]) :
    e = .refresh ∨ ∃ edit, e = .edit edit ∧ p.resends edit = true := by
  rw [update_request] at hRequest
  have hSame : p.results.request = p.requests.canonical (e.onQuery p.query) :=
    hLatest.trans hRequest.symm
  cases e with
  | mount => cases hEffects
  | edit e =>
    refine Or.inr ⟨e, rfl, ?_⟩
    by_contra hQuiet
    have hNone := (edit_quiet (Or.inr ⟨(Bool.not_eq_true _).mp hQuiet, hSame⟩)).1
    cases hNone.symm.trans hEffects
  | select index => cases (effects_select p index).symm.trans hEffects
  | refresh => exact Or.inl rfl
  | info answer =>
    cases answer with
    | error fault => cases hEffects
    | ok description =>
      have hQuiet : ({ p with info := some description } : Planner).send false = _ :=
        send_quiet (Or.inr ⟨rfl, hSame⟩)
      simp only [update, hQuiet] at hEffects
      cases hEffects
  | routes r' a =>
    by_cases hCounts : p.request = some r'
    · rw [update_routes_of_eq hCounts] at hEffects
      cases hEffects
    · rw [update_routes_of_ne hCounts] at hEffects
      cases hEffects

/-! ## Runs -/

/-- The results are about the latest request that the run has sent. -/
theorem latest_requested {c : Configuration} {location : Url} {now : Instant} {p : Planner}
    (hStart : start c location now = .ok p) (events : List Event) {r : String}
    (hLast : (p.requested events).getLast? = some r) :
    (p.run events).info.isSome ∧ (p.run events).results.request = some r := by
  revert r
  refine history_induction (P := fun events p' => ∀ {r}, (p.requested events).getLast? = some r →
    p'.info.isSome ∧ p'.results.request = some r) nofun ?_ events
  intro events e ih r hLast
  rw [requested_concat] at hLast
  rcases requested_update (agreed_run hStart events) e with
    ⟨hNone, hSame⟩ | ⟨r', hEffects, hInfo, -, hLatest⟩
  · rw [hNone, List.append_nil] at hLast
    obtain ⟨hInfo, hLatest⟩ := ih hLast
    exact ⟨info_update hInfo e, (hSame hInfo).trans hLatest⟩
  · obtain rfl : r' = r := by simpa [hEffects, Effect.request?] using hLast
    exact ⟨hInfo, hLatest⟩

/-- **Requests that are sent twice in a row.** An event sends at most one request, and that is the
one of the query after it. If the request sent before it, whenever that was, is the same, then the
user has asked for routes once more, or an edit has set the auxiliary distance of a planner which
is to send requests again then. -/
theorem repetition {c : Configuration} {location : Url} {now : Instant} {p : Planner}
    (hStart : start c location now = .ok p) (before : List Event) (e : Event) :
    p.requested (before ++ [e]) = p.requested before ∨
      ∃ r, p.requested (before ++ [e]) = p.requested before ++ [r] ∧
        (p.run (before ++ [e])).request = some r ∧
        ((p.requested before).getLast? = some r →
          e = .refresh ∨
            ∃ edit, e = .edit edit ∧ c.reaction = .refetch ∧
              edit.SetsDistance (p.run before).query) := by
  rw [requested_concat, run_concat]
  rcases requested_update (agreed_run hStart before) e with
    ⟨hNone, -⟩ | ⟨r, hEffects, -, hRequest, -⟩
  · exact Or.inl (by rw [hNone, List.append_nil])
  · refine Or.inr ⟨r, by rw [hEffects]; rfl, hRequest, fun hLast => ?_⟩
    have hLatest := (latest_requested hStart before hLast).2
    refine (told_of_resent hLatest hRequest hEffects).imp_right ?_
    rintro ⟨edit, rfl, hResends⟩
    obtain ⟨hReaction, hSets⟩ := resends_iff.mp hResends
    refine ⟨edit, rfl, ?_, hSets⟩
    obtain ⟨place, -, rfl⟩ := start_eq_ok hStart
    rwa [run_reaction] at hReaction

/-- The usual planner requests routes for a trip, and not once more when the server describes itself
again. -/
theorem repetition_usual : ∃ r,
    usual.requested [.info (.ok usualServer), .edit usualTrip] = [r] ∧
      usual.requested [.info (.ok usualServer), .edit usualTrip, .info (.ok usualServer)] = [r] := by
  have hLength : (usual.requested [.info (.ok usualServer), .edit usualTrip]).length = 1 := by
    decide +kernel
  obtain ⟨r, hOnce⟩ := List.length_eq_one_iff.mp hLength
  have hLast : (usual.requested [.info (.ok usualServer), .edit usualTrip]).getLast? = some r := by
    rw [hOnce]
    rfl
  obtain ⟨hInfo, hLatest⟩ := latest_requested start_usual _ hLast
  have hr : (usual.run [.info (.ok usualServer), .edit usualTrip]).request = some r :=
    (agreed_run start_usual _ hInfo (by decide +kernel)).symm.trans hLatest
  refine ⟨r, hOnce, ?_⟩
  rcases repetition start_usual [.info (.ok usualServer), .edit usualTrip]
    (.info (.ok usualServer)) with hSame | ⟨r', -, hRequest, hTold⟩
  · exact hSame.trans hOnce
  · -- The query is still the same, so it makes the request that was sent.
    rw [run_concat, update_request] at hRequest
    obtain rfl : r = r' := Option.some.inj (hr.symm.trans hRequest)
    rcases hTold hLast with hRefresh | ⟨edit, hEdit, -⟩
    · cases hRefresh
    · cases hEdit

end Planner

end TripPlanner
