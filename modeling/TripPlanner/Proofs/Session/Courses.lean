import TripPlanner.Proofs.Planner.Agreement
import TripPlanner.Proofs.Session.Waiting

/-!
# What steps do with routes

Seen from the routes there are five kinds of steps (`Course`, `course_of_moves`): a step has nothing
to do with them, picks one of them, sends the request of the query, or brings an answer that counts
or one that does not. Arguments about results go through these five and need not look at events.
-/

namespace TripPlanner.Session

/-- What a step does with requests for routes and with the results. -/
inductive Course (s : Session) (x : Step) (s' : Session) : Prop
  /-- No routes are asked for and none arrive. -/
  | calm (hAnswer : ∀ place a, x = .answer place a → s.sent[place]? = some .fetchInfo)
      (hResults : s'.planner.results = s.planner.results)
      (hSent : s'.sent = s.sent ∨ s'.sent = s.sent ++ [.fetchInfo])
  /-- The user picks an itinerary. -/
  | picks (index : Nat) (hStep : x = .input (.select index))
      (hPick : s.planner.rule.pick s.planner.results index = .ok s'.planner.results)
      (hSent : s'.sent = s.sent)
  /-- The request of the query is sent. -/
  | sends (r : String) (hInfo : s'.planner.info.isSome) (hRequest : s'.planner.request = some r)
      (hResults : s'.planner.results = s.planner.requests.sent s.planner.results r)
      (hSent : s'.sent = s.sent ++ [.fetchRoutes r])
  /-- An answer arrives that counts. -/
  | settles (place : Nat) (r : String) (a : RoutesAnswer) (hStep : x = .answer place (.routes a))
      (hWaits : place ∈ s.waiting) (hPlace : s.sent[place]? = some (.fetchRoutes r))
      (hRequest : s.planner.request = some r)
      (hAfter : s' = (s.received place).withPlanner
        { s.planner with results := Requests.settle r a })
  /-- An answer arrives that does not count. -/
  | drops (place : Nat) (r : String) (a : RoutesAnswer) (hStep : x = .answer place (.routes a))
      (hWaits : place ∈ s.waiting) (hPlace : s.sent[place]? = some (.fetchRoutes r))
      (hRequest : s.planner.request ≠ some r) (hAfter : s' = s.received place)

theorem course_of_turn {s : Session} {x : Step} (rest : Session) (e : Event)
    (hAnswer : ∀ place a, x = .answer place a → s.sent[place]? = some .fetchInfo)
    (hRest : rest.sent = s.sent) (hRoutes : ∀ r a, e ≠ .routes r a)
    (hSelect : ∀ index, e = .select index → x = .input (.select index)) :
    Course s x (rest.carryOut (s.planner.update e)) := by
  have hSent : (rest.carryOut (s.planner.update e)).sent =
      s.sent ++ (s.planner.update e).effects := by
    rw [← hRest]
    rfl
  cases Planner.update_turn s.planner e with
  | kept hResults hEffects =>
    exact .calm hAnswer hResults (Or.inl (by rw [hSent, hEffects, List.append_nil]))
  | asked hEvent hResults hEffects =>
    exact .calm hAnswer hResults (Or.inr (by rw [hSent, hEffects]))
  | sent r hInfo hRequest hResults hEffects =>
    exact .sends r hInfo hRequest hResults (by rw [hSent, hEffects])
  | settled r a hEvent hRequest hResults hEffects => exact absurd hEvent (hRoutes r a)
  | picked index hEvent hPick hEffects =>
    exact .picks index (hSelect index hEvent) hPick (by rw [hSent, hEffects, List.append_nil])

/-- Every step takes one of the five courses. -/
theorem course_of_moves {s s' : Session} {x : Step} (h : Moves s x s') : Course s x s' := by
  cases h with
  | input i hOpen =>
    refine course_of_turn s i.event ?_ rfl ?_ ?_
    · intro place a hx
      cases hx
    · intro r a hEvent
      cases i <;> cases hEvent
    · intro index hEvent
      cases i with
      | select index' =>
        cases hEvent
        rfl
      | mount => cases hEvent
      | edit e => cases hEvent
      | refresh => cases hEvent
  | info place a hWaits hSent =>
    refine course_of_turn (s.received place) (.info a) ?_ rfl nofun nofun
    intro place' a' hx
    cases hx
    exact hSent
  | routes place r a hWaits hSent =>
    by_cases hRequest : s.planner.request = some r
    · refine .settles place r a rfl hWaits hSent hRequest ?_
      rw [Planner.update_routes_of_eq hRequest, carryOut_nothing]
    · refine .drops place r a rfl hWaits hSent hRequest ?_
      rw [Planner.update_routes_of_ne hRequest, carryOut_nothing]
      rfl
  | close hOpen => exact .calm nofun rfl (Or.inl rfl)

/-- The answer to a request that waits can arrive. It ends the wait, and then only the planner may
be another one. -/
theorem run_answer {s t : Session} {steps : List Step} {place : Nat} {r : String}
    (hRun : s.run? steps = some t) (hWaits : place ∈ t.waiting)
    (hPlace : t.sent[place]? = some (.fetchRoutes r)) (a : RoutesAnswer) :
    ∃ p, s.run? (steps ++ [.answer place (.routes a)]) =
      some ((t.received place).withPlanner p) := by
  by_cases hRequest : t.planner.request = some r
  · have hMoves := Moves.routes place r a hWaits hPlace
    rw [Planner.update_routes_of_eq hRequest, carryOut_nothing] at hMoves
    exact ⟨_, run?_concat_eq_some_iff.mpr ⟨t, hRun, hMoves⟩⟩
  · have hMoves := Moves.routes place r a hWaits hPlace
    rw [Planner.update_routes_of_ne hRequest, carryOut_nothing] at hMoves
    exact ⟨_, run?_concat_eq_some_iff.mpr ⟨t, hRun, hMoves⟩⟩

/-! ## Along runs -/

theorem info_step {s s' : Session} {x : Step} (h : Moves s x s') (hInfo : s.planner.info.isSome) :
    s'.planner.info.isSome := by
  rcases planner_step h with hSame | ⟨e, hUpdate⟩
  · exact hSame ▸ hInfo
  · exact hUpdate ▸ Planner.info_update hInfo e

theorem agreed_step {s s' : Session} {x : Step} (hMoves : Moves s x s') (h : s.planner.Agreed) :
    s'.planner.Agreed := by
  rcases planner_step hMoves with hSame | ⟨e, hUpdate⟩
  · exact hSame ▸ h
  · exact hUpdate ▸ Planner.agreed_update h e

theorem agreed_run {s s' : Session} {steps : List Step} (hRun : s.run? steps = some s')
    (h : s.planner.Agreed) : s'.planner.Agreed :=
  run_induction (P := fun _ t => t.planner.Agreed) h
    (fun _ _ _ _ _ ht hMoves => agreed_step hMoves ht) hRun

theorem agreed_opened {p : Planner} (h : p.Agreed) : (opened p).planner.Agreed :=
  Planner.agreed_update h .mount

/-! ## The usual session -/

/-- The server describes itself to the usual planner, and a trip is edited in. -/
def asking : List Step :=
  [.answer 0 (.info (.ok Planner.usualServer)), .input (.edit Planner.usualTrip)]

/-- The usual session then waits for the routes of the trip. -/
theorem run_asking : ∃ s r, (opened Planner.usual).run? asking = some s ∧ s.isOpen ∧
    s.waiting = [1] ∧ s.sent = [.fetchInfo, .fetchRoutes r] ∧ s.planner.info.isSome ∧
    s.planner.request = some r ∧ s.planner.results.request = some r ∧
    s.planner.results.progress = .fetching ∧
    s.planner.query = (Planner.usual.query.apply Planner.usualTrip).1 := by
  have hInformed : ((opened Planner.usual).run? (asking.take 1)).map
      (fun s => (s.sent, s.planner.results.progress)) = some ([.fetchInfo], .idle) := by
    decide +kernel
  have hAsked : ((opened Planner.usual).run? asking).map (fun s => (s.isOpen, s.waiting,
      s.planner.results.progress, s.planner.query)) =
        some (true, [1], .fetching, (Planner.usual.query.apply Planner.usualTrip).1) := by
    decide +kernel
  obtain ⟨s, hRun, hs⟩ := Option.map_eq_some_iff.mp hAsked
  simp only [Prod.mk.injEq] at hs
  obtain ⟨hOpen, hWaiting, hFetching, hQuery⟩ := hs
  obtain ⟨t, hBefore, hMoves⟩ := run?_concat_eq_some_iff.mp
    (show (opened Planner.usual).run? (asking.take 1 ++ [.input (.edit Planner.usualTrip)]) =
      some s from hRun)
  simp only [hBefore, Option.map_some, Option.some.injEq, Prod.mk.injEq] at hInformed
  obtain ⟨hSent, hIdle⟩ := hInformed
  cases course_of_moves hMoves with
  | calm _ hResults _ =>
    rw [hResults, hIdle] at hFetching
    cases hFetching
  | sends r hInfo hRequest hResults hAfter =>
    rw [hSent] at hAfter
    have hLatest : s.planner.results.request = some r := by rw [hResults]; rfl
    exact ⟨s, r, hRun, hOpen, hWaiting, hAfter, hInfo, hRequest, hLatest, hFetching, hQuery⟩
  | picks _ hStep _ _ => cases hStep
  | settles _ _ _ hStep _ _ _ _ => cases hStep
  | drops _ _ _ hStep _ _ _ _ => cases hStep

end TripPlanner.Session
