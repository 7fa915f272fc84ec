import TripPlanner.Proofs.Planner.Agreement
import TripPlanner.Proofs.Results.Attempts

/-!
# Keeping itineraries while a request is on its way

Whether itineraries of earlier results are kept while a request is on its way is a matter of looks.
A planner that keeps them and one that does not go through the same events side by side: they send
the same, and their results differ in nothing but what is shown meanwhile (`Results.Covers`,
`update_keeping`), although only one of them has itineraries to pick from then. Every answer that
counts removes the difference.

* `Planner.keeping`: the planner with the same settings that keeps itineraries.
* `Planner.brought`: what such a planner has to show, the itineraries of the latest answer that
  counted.
-/

namespace TripPlanner

/-! ## Results -/

/-- Results that are the same as others, except that the others show no itineraries while a request
is on its way. -/
structure Results.Covers (kept blank : Results) : Prop where
  request : kept.request = blank.request
  progress : kept.progress = blank.progress
  eq : blank.progress ≠ .fetching → kept = blank
  paths : blank.progress = .fetching → blank.paths = []

theorem Results.covers_refl {r : Results} (h : r.progress ≠ .fetching) : r.Covers r :=
  ⟨rfl, rfl, fun _ => rfl, fun hFetching => absurd hFetching h⟩

/-- An attempt to pick can succeed where itineraries are kept and fail where they are not. It does
not matter: what is only kept is gone when the request has been answered. -/
theorem SelectionRule.covers_attempt {kept blank : Results} (h : kept.Covers blank)
    (rule : SelectionRule) (index : Nat) :
    (rule.attempt kept index).Covers (rule.attempt blank index) := by
  by_cases hFetching : blank.progress = .fetching
  · have hRefused : rule.attempt blank index = blank := by
      refine (rule.attempt_cases blank index).resolve_right fun hPick => ?_
      have hIndex := (pick_eq_ok hPick).1
      simp [h.paths hFetching] at hIndex
    rw [hRefused]
    exact ⟨(rule.attempt_request kept index).trans h.request,
      (rule.attempt_progress kept index).trans h.progress,
      fun hNot => absurd hFetching hNot, h.paths⟩
  · rw [h.eq hFetching]
    exact Results.covers_refl (rule.attempt_progress blank index ▸ hFetching)

/-- The same way of making requests, with itineraries kept meanwhile. -/
def Requests.keeping (s : Requests) : Requests := { s with keepsPaths := true }

/-- Whether a query is sent does not depend on what is shown. -/
theorem Requests.send_keeping {s : Requests} (hBlank : s.keepsPaths = false) (q : Query)
    {kept blank : Results} (h : kept.Covers blank) (again : Bool) :
    (s.keeping.send q kept again).2 = (s.send q blank again).2 ∧
      (s.keeping.send q kept again).1.Covers (s.send q blank again).1 := by
  have hCanonical : s.keeping.canonical q = s.canonical q := rfl
  unfold send
  rw [hCanonical, h.request]
  cases s.canonical q with
  | none => exact ⟨rfl, h⟩
  | some r =>
    by_cases hSent : (!again && decide (blank.request = some r)) = true
    · simp only [hSent, if_true]
      exact ⟨trivial, h⟩
    · simp only [hSent, if_false, Bool.false_eq_true]
      refine ⟨trivial, rfl, rfl, fun hNot => absurd rfl hNot, fun _ => ?_⟩
      simp [sent, hBlank, Results.fetching]

namespace Planner

/-! ## Side by side -/

/-- The planner with the same settings that keeps itineraries, and with other results. -/
def keeping (p : Planner) (results : Results) : Planner :=
  { p with requests := p.requests.keeping, results }

theorem request_keeping (p : Planner) (results : Results) :
    (p.keeping results).request = p.request := rfl

theorem send_keeping {p : Planner} {results : Results} (hBlank : p.requests.keepsPaths = false)
    (h : results.Covers p.results) (again : Bool) :
    ((p.keeping results).send again).2 = (p.send again).2 ∧
      ((p.keeping results).send again).1.results.Covers (p.send again).1.results := by
  rcases Option.eq_none_or_eq_some p.info with hInert | ⟨description, hInfo⟩
  · rw [send_of_inert hInert, send_of_inert (p := p.keeping results) hInert]
    exact ⟨rfl, h⟩
  · have hSome : p.info.isSome := by simp [hInfo]
    rw [send_of_info hSome, send_of_info (p := p.keeping results) hSome]
    exact Requests.send_keeping hBlank p.query h again

/-- What an event sends does not depend on what is shown, and it keeps the results the same but for
that. -/
theorem effects_keeping {p : Planner} {results : Results} (hBlank : p.requests.keepsPaths = false)
    (h : results.Covers p.results) (e : Event) :
    ((p.keeping results).update e).effects = (p.update e).effects ∧
      ((p.keeping results).update e).planner.results.Covers (p.update e).planner.results := by
  cases e with
  | mount => exact ⟨rfl, h⟩
  | edit e =>
    change ((p.keeping results).edit e).effects = (p.edit e).effects ∧
      ((p.keeping results).edit e).planner.results.Covers (p.edit e).planner.results
    cases hAny : (p.query.apply e).2.any with
    | true =>
      rw [(edit_of_any hAny).1, (edit_of_any hAny).2,
        (edit_of_any (p := p.keeping results) hAny).1,
        (edit_of_any (p := p.keeping results) hAny).2]
      exact send_keeping (p := (p.edited e).sync) hBlank h (p.resends e)
    | false =>
      rw [edit_of_not_any hAny, edit_of_not_any (p := p.keeping results) hAny]
      exact ⟨rfl, h⟩
  | select index =>
    rw [effects_select, effects_select, update_select, update_select]
    exact ⟨rfl, SelectionRule.covers_attempt h p.rule index⟩
  | refresh => exact send_keeping hBlank h true
  | info answer =>
    cases answer with
    | error fault => exact ⟨rfl, h⟩
    | ok description =>
      exact send_keeping (p := { p with info := some description }) hBlank h false
  | routes r a =>
    by_cases hRequest : p.request = some r
    · rw [update_routes_of_eq hRequest, update_routes_of_eq (p := p.keeping results) hRequest]
      exact ⟨rfl, Results.covers_refl (Requests.settle_progress_ne_fetching r a)⟩
    · rw [update_routes_of_ne hRequest, update_routes_of_ne (p := p.keeping results) hRequest]
      exact ⟨rfl, h⟩

/-- After an event, a planner that keeps itineraries is still the other one that keeps them. -/
theorem update_keeping {p : Planner} {results : Results} (hBlank : p.requests.keepsPaths = false)
    (h : results.Covers p.results) (e : Event) :
    ∃ results', ((p.keeping results).update e).planner = (p.update e).planner.keeping results' ∧
      results'.Covers (p.update e).planner.results := by
  refine ⟨_, ?_, (effects_keeping hBlank h e).2⟩
  rw [update_eq p e, update_eq (p.keeping results) e]
  rfl

theorem run_keeping {p : Planner} {results : Results} (hBlank : p.requests.keepsPaths = false)
    (h : results.Covers p.results) (events : List Event) :
    ∃ results', (p.keeping results).run events = (p.run events).keeping results' ∧
      results'.Covers (p.run events).results := by
  refine history_induction
    (P := fun events p' => ∃ results', (p.keeping results).run events = p'.keeping results' ∧
      results'.Covers p'.results) ⟨results, rfl, h⟩ ?_ events
  rintro events e ⟨results', hRun, hCovers⟩
  rw [run_concat, hRun]
  exact update_keeping (by rw [run_requests]; exact hBlank) hCovers e

/-! ## What is kept -/

/-- The results that an event commits, if it is an answer that counts. -/
def committed? (p : Planner) : Event → Option Results
  | .routes r a =>
    match p.requests.receive p.query p.results r a with
    | (results, _, .committed _) => some results
    | (_, _, .discarded) => none
  | _ => none

/-- The results that a run has committed most recently. -/
def latest? (p : Planner) : List Event → Option Results
  | [] => none
  | e :: events => ((p.update e).planner.latest? events).or (p.committed? e)

/-- The itineraries of the results that a run has committed most recently. -/
def brought (p : Planner) (events : List Event) : List Itinerary :=
  ((p.latest? events).map Results.paths).getD []

theorem latest?_concat (p : Planner) (events : List Event) (e : Event) :
    p.latest? (events ++ [e]) = ((p.run events).committed? e).or (p.latest? events) := by
  induction events generalizing p with
  | nil => simp [latest?, run]
  | cons first events ih =>
    simp only [List.cons_append, latest?, ih, Option.or_assoc]
    rfl

theorem committed?_routes (p : Planner) (r : String) (a : RoutesAnswer) :
    p.committed? (.routes r a) = if p.request = some r then some (Requests.settle r a) else none := by
  by_cases h : p.requests.canonical p.query = some r
  · simp [committed?, Requests.receive, request, h]
  · simp [committed?, Requests.receive, request, h]

theorem committed?_eq_some {p : Planner} {e : Event} {results : Results}
    (h : p.committed? e = some results) :
    (p.update e).planner.results = results := by
  cases e with
  | routes r a =>
    rw [committed?_routes] at h
    split at h
    · rename_i hRequest
      rw [update_routes_of_eq hRequest]
      exact Option.some.inj h
    · cases h
  | _ => cases h

/-- What a planner that keeps itineraries shows stays the same, up to the marks, until an answer
counts. -/
theorem paths_of_not_committed {p : Planner} (hKeeps : p.requests.keepsPaths = true) {e : Event}
    (h : p.committed? e = none) :
    (p.update e).planner.results.paths.map Results.unpicked =
      p.results.paths.map Results.unpicked := by
  cases update_turn p e with
  | kept hResults _ => rw [hResults]
  | asked _ hResults _ => rw [hResults]
  | sent r _ _ hResults _ =>
    rw [hResults]
    simp [Requests.sent, Results.fetching, hKeeps]
  | settled r a hEvent hRequest _ _ =>
    rw [hEvent, committed?_routes, if_pos hRequest] at h
    cases h
  | picked _ _ hPick _ => exact (SelectionRule.pick_eq_ok hPick).2.2.2

/-- A planner that keeps itineraries always shows what the latest answer that counted has brought,
up to the marks. -/
theorem brought_run {p : Planner} (hKeeps : p.requests.keepsPaths = true)
    (hStart : p.results.paths = []) (events : List Event) :
    (p.run events).results.paths.map Results.unpicked =
      (p.brought events).map Results.unpicked := by
  refine history_induction (P := fun events p' => p'.results.paths.map Results.unpicked =
    (p.brought events).map Results.unpicked) (by rw [hStart]; rfl) ?_ events
  intro events e ih
  rw [brought, latest?_concat]
  cases hCommitted : (p.run events).committed? e with
  | none =>
    rw [paths_of_not_committed (by rw [run_requests]; exact hKeeps) hCommitted]
    exact ih
  | some results =>
    rw [committed?_eq_some hCommitted]
    rfl

theorem fetching_again {p : Planner} {events : List Event} {r : String}
    (hInfo : (p.run events).info.isSome) (hRequest : (p.run events).request = some r)
    (a : RoutesAnswer) :
    (p.run (events ++ [.routes r a] ++ [.refresh])).results.progress = .fetching := by
  rw [run_concat, run_concat, update_routes_of_eq hRequest]
  have hAgain := update_refresh (p := { p.run events with results := Requests.settle r a })
    hInfo hRequest
  exact congrArg (fun response => response.planner.results.progress) hAgain

/-- Asking once more takes nothing away from what has been brought. -/
theorem brought_again {p : Planner} {events : List Event} {r : String}
    (hRequest : (p.run events).request = some r) (a : RoutesAnswer) :
    p.brought (events ++ [.routes r a] ++ [.refresh]) = (Requests.settle r a).paths := by
  rw [brought, latest?_concat, latest?_concat, committed?_routes, if_pos hRequest]
  rfl

/-! ## From the start -/

/-- Where a planner starts that keeps no itineraries, its twin starts. -/
theorem start_keeping {c : Configuration} {location : Url} {now : Instant} {p : Planner}
    (hStart : start { c with keepsPaths := false } location now = .ok p) :
    start { c with keepsPaths := true } location now = .ok (p.keeping .idle) ∧
      p.requests.keepsPaths = false ∧ Results.idle.Covers p.results := by
  obtain ⟨place, hPlace, rfl⟩ := start_eq_ok hStart
  have hPlace' : Configuration.routePlace { c with keepsPaths := true } = .ok place := hPlace
  exact ⟨start_of_routePlace hPlace' location now, rfl, Results.covers_refl nofun⟩

/-- **Keeping itineraries is a matter of looks.** Two planners start with configurations that differ
in nothing but whether itineraries are kept while a request is on its way. After every run, the
same for both, they send the same whatever happens next; query, description of the server, address
bar, progress and latest request are the same, and unless the request is on its way, so are the
results as a whole. While it is, one planner shows no itineraries, and the other one those of the
results committed most recently, if there are any, up to the marks. -/
theorem retention {c : Configuration} {location : Url} {now : Instant} {p q : Planner}
    (hBlank : start { c with keepsPaths := false } location now = .ok p)
    (hKeeping : start { c with keepsPaths := true } location now = .ok q) (events : List Event) :
    (∀ e, ((q.run events).update e).effects = ((p.run events).update e).effects) ∧
      (q.run events).query = (p.run events).query ∧
      (q.run events).info = (p.run events).info ∧
      (q.run events).bar = (p.run events).bar ∧
      (q.run events).results.progress = (p.run events).results.progress ∧
      (q.run events).results.request = (p.run events).results.request ∧
      ((p.run events).results.progress ≠ .fetching →
        (q.run events).results = (p.run events).results) ∧
      ((p.run events).results.progress = .fetching →
        (p.run events).results.paths = [] ∧
          (q.run events).results.paths.map Results.unpicked =
            (q.brought events).map Results.unpicked) := by
  obtain ⟨hTwin, hNotKept, hCovers⟩ := start_keeping hBlank
  obtain rfl : q = p.keeping .idle := Except.ok.inj (hKeeping.symm.trans hTwin)
  obtain ⟨results, hRun, h⟩ := run_keeping hNotKept hCovers events
  have hBrought := brought_run (p := p.keeping .idle) rfl rfl events
  rw [hRun] at hBrought ⊢
  refine ⟨fun e => (effects_keeping ?_ h e).1, rfl, rfl, rfl, h.progress, h.request, h.eq,
    fun hFetching => ⟨h.paths hFetching, hBrought⟩⟩
  rw [run_requests]
  exact hNotKept

/-- An itinerary comes, and then the user of the usual planner asks for routes once more. The
itinerary is still shown by the planner that keeps it, and only by that one. -/
theorem retention_usual : ∃ q r,
    start { keepsPaths := true } usualPage newYear = .ok q ∧
      (usual.run [.info (.ok usualServer), .edit usualTrip, .routes r (.ok [.plain true]),
        .refresh]).results.paths = [] ∧
      (q.run [.info (.ok usualServer), .edit usualTrip, .routes r (.ok [.plain true]),
        .refresh]).results.paths.map Results.unpicked = [Results.unpicked (.plain true)] := by
  obtain ⟨hTwin, hNotKept, hCovers⟩ := start_keeping (c := {}) start_usual
  have hInfo : (usual.run [.info (.ok usualServer), .edit usualTrip]).info.isSome := by
    decide +kernel
  obtain ⟨r, hRequest⟩ : ∃ r,
      (usual.run [.info (.ok usualServer), .edit usualTrip]).request = some r :=
    exists_request (by decide +kernel)
  have hRequest' :
      ((usual.keeping .idle).run [.info (.ok usualServer), .edit usualTrip]).request = some r := by
    obtain ⟨results, hRun, -⟩ :=
      run_keeping hNotKept hCovers [.info (.ok usualServer), .edit usualTrip]
    rw [hRun, request_keeping, hRequest]
  obtain ⟨-, -, -, -, -, -, -, hShown⟩ := retention (c := {}) start_usual hTwin
    ([.info (.ok usualServer), .edit usualTrip] ++ [.routes r (.ok [.plain true])] ++ [.refresh])
  obtain ⟨hNone, hSome⟩ := hShown (fetching_again hInfo hRequest _)
  rw [brought_again hRequest', Requests.settle, Results.map_unpicked_succeeded] at hSome
  simp only [List.cons_append, List.nil_append] at hNone hSome
  exact ⟨_, r, hTwin, hNone, hSome⟩

end Planner

end TripPlanner
