import TripPlanner.Proofs.Session.Courses

/-!
# Where results come from

Answers arrive in any order, and the query moves on between request and answer. Nevertheless the
results of a complete query are an answer to its own request: an answer counts exactly if the query
still makes the request it answers, and it acts on the results and on nothing else
(`answer_counts_iff`). So along every run the itineraries shown are those of an answer to the latest
request, up to the marks (`Sourced`), and with `Planner.Agreed` that is the request of the query.
-/

namespace TripPlanner

/-- An answer counts exactly if the query is complete and makes the request it answers. -/
theorem Requests.receive_committed_iff (s : Requests) (q : Query) (results : Results) (r : String)
    (a : RoutesAnswer) :
    (s.receive q results r a).2.2 = .committed (settle r a).progress ↔
      q.isComplete ∧ s.canonical q = some r := by
  unfold receive
  by_cases h : s.canonical q = some r
  · have hComplete : q.isComplete := by
      by_contra hNot
      simp [canonical, hNot] at h
    simp [h, hComplete]
  · simp [h]

theorem Requests.receive_discarded_iff (s : Requests) (q : Query) (results : Results) (r : String)
    (a : RoutesAnswer) :
    (s.receive q results r a).2.2 = .discarded ↔ s.canonical q ≠ some r := by
  unfold receive
  by_cases h : s.canonical q = some r
  · simp [h]
  · simp [h]

namespace Session

/-- A step brings an answer to a request. -/
def Delivers (r : String) (a : RoutesAnswer) (s : Session) (x : Step) : Prop :=
  ∃ place, x = .answer place (.routes a) ∧ s.sent[place]? = some (.fetchRoutes r)

/-- Results that have come are an answer to their request, up to the marks. -/
structure Sourced (s : Session) (steps : List Step) (results : Results) : Prop where
  succeeded : results.progress = .succeeded → ∃ r paths, results.request = some r ∧
    s.Happens steps (Delivers r (.ok paths)) ∧
    results.paths.map Results.unpicked = paths.map Results.unpicked
  failed : results.progress = .failed → ∃ r fault, results.request = some r ∧
    s.Happens steps (Delivers r (.error fault)) ∧
    results.paths = [] ∧ results.selected = Results.noSelection

theorem sourced_concat {s t : Session} {steps : List Step} {results : Results}
    (hRun : s.run? steps = some t) (h : s.Sourced steps results) (x : Step) :
    s.Sourced (steps ++ [x]) results := by
  constructor
  · intro hProgress
    obtain ⟨r, paths, hRequest, hDelivered, hPaths⟩ := h.succeeded hProgress
    exact ⟨r, paths, hRequest, (happens_concat_iff hRun).mpr (Or.inl hDelivered), hPaths⟩
  · intro hProgress
    obtain ⟨r, fault, hRequest, hDelivered, hEmpty⟩ := h.failed hProgress
    exact ⟨r, fault, hRequest, (happens_concat_iff hRun).mpr (Or.inl hDelivered), hEmpty⟩

theorem sourced_settle {s : Session} {steps : List Step} {r : String} {a : RoutesAnswer}
    (h : s.Happens steps (Delivers r a)) : s.Sourced steps (Requests.settle r a) := by
  cases a with
  | error fault => exact ⟨nofun, fun _ => ⟨r, fault, rfl, h, rfl, rfl⟩⟩
  | ok paths => exact ⟨fun _ => ⟨r, paths, rfl, h, Results.map_unpicked_succeeded r paths⟩, nofun⟩

/-- A pick keeps the source. Failed results have nothing to pick. -/
theorem sourced_pick {s : Session} {steps : List Step} {rule : SelectionRule} {index : Nat}
    {results results' : Results} (h : s.Sourced steps results)
    (hPick : rule.pick results index = .ok results') : s.Sourced steps results' := by
  obtain ⟨hIndex, hRequest, hProgress, hPaths⟩ := SelectionRule.pick_eq_ok hPick
  constructor
  · intro hSucceeded
    obtain ⟨r, paths, hr, hDelivered, hSame⟩ := h.succeeded (hProgress ▸ hSucceeded)
    exact ⟨r, paths, hRequest.trans hr, hDelivered, hPaths.trans hSame⟩
  · intro hFailed
    obtain ⟨r, fault, -, -, hEmpty, -⟩ := h.failed (hProgress ▸ hFailed)
    simp [hEmpty] at hIndex

theorem sourced_run {s s' : Session} {steps : List Step} (hStart : s.Sourced [] s.planner.results)
    (hRun : s.run? steps = some s') : s.Sourced steps s'.planner.results := by
  refine run_induction (P := fun steps t => s.Sourced steps t.planner.results) hStart ?_ hRun
  intro steps t x t' hBefore ih hMoves
  cases course_of_moves hMoves with
  | calm _ hResults _ =>
    rw [hResults]
    exact sourced_concat hBefore ih x
  | picks _ _ hPick _ => exact sourced_concat hBefore (sourced_pick ih hPick) x
  | sends r _ _ hResults _ =>
    rw [hResults]
    exact ⟨nofun, nofun⟩
  | settles place r a hStep _ hPlace _ hAfter =>
    rw [hAfter]
    exact sourced_settle ((happens_concat_iff hBefore).mpr (Or.inr ⟨place, hStep, hPlace⟩))
  | drops _ _ _ _ _ _ _ hAfter =>
    rw [hAfter]
    exact sourced_concat hBefore ih x

/-- The answer to a request that waits can arrive. It counts exactly if the query is complete and
makes that request; else it is discarded and the planner is as it was. Nothing but the results
depends on it, and nothing is sent. -/
theorem answer_counts_iff {s : Session} {place : Nat} {r : String} (hWaits : place ∈ s.waiting)
    (hPlace : s.sent[place]? = some (.fetchRoutes r)) (a : RoutesAnswer) :
    ∃ s', s.step? (.answer place (.routes a)) = some s' ∧
      ((s.planner.requests.receive s.planner.query s.planner.results r a).2.2 =
          .committed (Requests.settle r a).progress ↔
        s.planner.query.isComplete ∧ s.planner.request = some r) ∧
      (s.planner.request ≠ some r →
        (s.planner.requests.receive s.planner.query s.planner.results r a).2.2 = .discarded ∧
          s'.planner = s.planner) ∧
      s'.planner = { s.planner with results := s'.planner.results } ∧ s'.sent = s.sent := by
  have hMoves := Moves.routes place r a hWaits hPlace
  refine ⟨_, step?_eq_some_iff.mpr hMoves, Requests.receive_committed_iff _ _ _ _ _, ?_, ?_⟩
  · intro hRequest
    refine ⟨(Requests.receive_discarded_iff _ _ _ _ _).mpr hRequest, ?_⟩
    rw [Planner.update_routes_of_ne hRequest]
    rfl
  · by_cases hRequest : s.planner.request = some r
    · rw [Planner.update_routes_of_eq hRequest]
      exact ⟨rfl, List.append_nil _⟩
    · rw [Planner.update_routes_of_ne hRequest]
      exact ⟨rfl, List.append_nil _⟩

/-- **Where results come from.** After every run, the answer to a request that waits counts exactly
if the query is complete and makes that request; else it changes nothing in the planner. Counting
or not, it leaves everything but the results alone and sends nothing. Results of a complete query
that have come are, in order and up to the marks, the itineraries of an answer to the very request
that the query makes; results of one that have failed are empty, and a fault was the answer. -/
theorem provenance {c : Configuration} {location : Url} {now : Instant} {p : Planner}
    (hStart : Planner.start c location now = .ok p) {steps : List Step} {s : Session}
    (hRun : (opened p).run? steps = some s) :
    (∀ place r a, place ∈ s.waiting → s.sent[place]? = some (.fetchRoutes r) →
      ∃ s', s.step? (.answer place (.routes a)) = some s' ∧
        ((s.planner.requests.receive s.planner.query s.planner.results r a).2.2 =
            .committed (Requests.settle r a).progress ↔
          s.planner.query.isComplete ∧ s.planner.request = some r) ∧
        (¬ (s.planner.query.isComplete ∧ s.planner.request = some r) →
          (s.planner.requests.receive s.planner.query s.planner.results r a).2.2 = .discarded ∧
            s'.planner = s.planner) ∧
        s'.planner = { s.planner with results := s'.planner.results } ∧ s'.sent = s.sent) ∧
    (s.planner.info.isSome → s.planner.query.isComplete → ∃ r, s.planner.request = some r ∧
      (s.planner.results.progress = .succeeded → ∃ paths,
        (opened p).Happens steps (Delivers r (.ok paths)) ∧
        s.planner.results.paths.map Results.unpicked = paths.map Results.unpicked) ∧
      (s.planner.results.progress = .failed → ∃ fault,
        (opened p).Happens steps (Delivers r (.error fault)) ∧
        s.planner.results.paths = [] ∧ s.planner.results.selected = -1)) := by
  constructor
  · intro place r a hWaits hPlace
    obtain ⟨s', hStep, hCommitted, hDiscarded, hResults, hSent⟩ := answer_counts_iff hWaits hPlace a
    refine ⟨s', hStep, hCommitted, fun hNot => hDiscarded fun hRequest => ?_, hResults, hSent⟩
    exact hNot ⟨Planner.isComplete_of_request hRequest, hRequest⟩
  · intro hInfo hComplete
    have hAgreed := agreed_run hRun (agreed_opened (Planner.agreed_start hStart))
    have hIdle : (opened p).planner.results.progress = .idle :=
      congrArg Results.progress (Planner.start_inert hStart).2
    have hSourced : (opened p).Sourced steps s.planner.results :=
      sourced_run ⟨fun h => absurd (hIdle.symm.trans h) nofun,
        fun h => absurd (hIdle.symm.trans h) nofun⟩ hRun
    obtain ⟨r, hRequest⟩ : ∃ r, s.planner.request = some r := ⟨_, if_pos hComplete⟩
    have hLatest : s.planner.results.request = some r := (hAgreed hInfo hComplete).trans hRequest
    refine ⟨r, hRequest, ?_, ?_⟩
    · intro hProgress
      obtain ⟨r', paths, hr', hDelivered, hPaths⟩ := hSourced.succeeded hProgress
      obtain rfl : r' = r := Option.some.inj (hr'.symm.trans hLatest)
      exact ⟨paths, hDelivered, hPaths⟩
    · intro hProgress
      obtain ⟨r', fault, hr', hDelivered, hEmpty⟩ := hSourced.failed hProgress
      obtain rfl : r' = r := Option.some.inj (hr'.symm.trans hLatest)
      exact ⟨fault, hDelivered, hEmpty⟩

/-- The usual session gets an answer without itineraries, and shows none. -/
theorem provenance_usual : ∃ s r,
    (opened Planner.usual).run? (asking ++ [.answer 1 (.routes (.ok []))]) = some s ∧
      s.planner.request = some r ∧ s.planner.results.progress = .succeeded ∧
      ∃ paths, (opened Planner.usual).Happens (asking ++ [.answer 1 (.routes (.ok []))])
        (Delivers r (.ok paths)) ∧
      s.planner.results.paths.map Results.unpicked = paths.map Results.unpicked := by
  obtain ⟨t, r, hAsking, -, hWaiting, hSent, hInfo, hRequest, -, -, -⟩ := run_asking
  have hMoves : Moves t (.answer 1 (.routes (.ok []))) _ :=
    .routes 1 r (.ok []) (by simp [hWaiting]) (by simp [hSent])
  rw [Planner.update_routes_of_eq hRequest] at hMoves
  have hRun := run?_concat_eq_some_iff.mpr ⟨t, hAsking, hMoves⟩
  have hComplete := Planner.isComplete_of_request hRequest
  obtain ⟨r', hr', hSucceeded, -⟩ := (provenance Planner.start_usual hRun).2 hInfo hComplete
  exact ⟨_, r', hRun, hr', rfl, hSucceeded rfl⟩

end Session

end TripPlanner
