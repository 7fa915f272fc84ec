import TripPlanner.Proofs.Session.Courses

/-!
# Requests nobody will answer

While its query is complete, a planner that says that routes are on their way should have a request
for them waiting (`Attended`). Sessions do not keep to this. An answer that arrives while the query
is not complete is thrown away, yet its request stays the latest one sent; when the query then
becomes what it was, nothing is sent, and nothing will ever arrive (`unattended_usual`).

This is the only way in which a session can fail: `attended_iff_not_stranded` says that it does
exactly if the latest request and its copies have all been answered, and each answer came while the
query was not complete (`Stranded`).
-/

namespace TripPlanner.Session

/-- A complete query whose routes are said to be on their way has a request for them waiting. -/
def Attended (s : Session) : Prop :=
  s.planner.info.isSome → s.planner.query.isComplete → s.planner.results.progress = .fetching →
    ∃ r, s.planner.results.request = some r ∧ s.Awaits (.fetchRoutes r)

/-! ## The latest request -/

theorem routeRequests_of_sent {s s' : Session} {r : String}
    (h : s'.sent = s.sent ++ [.fetchRoutes r]) : s'.routeRequests = s.routeRequests ++ [r] := by
  simp [routeRequests, h]

theorem routeRequests_of_calm {s s' : Session}
    (h : s'.sent = s.sent ∨ s'.sent = s.sent ++ [.fetchInfo]) :
    s'.routeRequests = s.routeRequests := by
  rcases h with hSent | hSent
  · simp [routeRequests, hSent]
  · simp [routeRequests, hSent]

theorem routeRequests_step {s s' : Session} {x : Step} (h : Moves s x s') :
    s'.routeRequests = s.routeRequests ∨ ∃ r, s'.sent = s.sent ++ [.fetchRoutes r] := by
  cases course_of_moves h with
  | calm _ _ hSent => exact Or.inl (routeRequests_of_calm hSent)
  | picks _ _ _ hSent => exact Or.inl (routeRequests_of_calm (Or.inl hSent))
  | sends r _ _ _ hSent => exact Or.inr ⟨r, hSent⟩
  | settles _ _ _ _ _ _ _ hAfter => exact Or.inl (by rw [hAfter]; rfl)
  | drops _ _ _ _ _ _ _ hAfter => exact Or.inl (by rw [hAfter]; rfl)

theorem routeRequests_run {s s' : Session} {steps : List Step} (hRun : s.run? steps = some s') :
    s.routeRequests <+: s'.routeRequests := (sent_run hRun).filterMap _

/-- Where no request has been sent in a run and one more step, that step has sent none. -/
theorem routeRequests_same {s t t' : Session} {steps : List Step} {x : Step}
    (hRun : s.run? steps = some t) (hMoves : Moves t x t')
    (hLast : t'.routeRequests = s.routeRequests) : t'.routeRequests = t.routeRequests := by
  rcases routeRequests_step hMoves with hSame | ⟨r, hSent⟩
  · exact hSame
  · have hLength := (routeRequests_run hRun).length_le
    rw [← hLast, routeRequests_of_sent hSent, List.length_append, List.length_singleton]
      at hLength
    omega

/-- Where no request for routes has been sent since, every one on record was there already. -/
theorem sent_of_routeRequests_eq {s s' : Session} {place : Nat} {r : String}
    (hSent : s.sent <+: s'.sent) (hSame : s'.routeRequests = s.routeRequests)
    (h : s'.sent[place]? = some (.fetchRoutes r)) : s.sent[place]? = some (.fetchRoutes r) := by
  obtain ⟨later, hLater⟩ := hSent
  rw [← hLater] at h
  rcases Nat.lt_or_ge place s.sent.length with hOld | hNew
  · rwa [List.getElem?_append_left hOld] at h
  · rw [List.getElem?_append_right hNew] at h
    unfold routeRequests at hSame
    rw [← hLater, List.filterMap_append, List.append_right_eq_self] at hSame
    have hNone := List.filterMap_eq_nil_iff.mp hSame _ (List.mem_of_getElem? h)
    cases hNone

/-- The latest request of a run to `s'` is `r`: sending it has led to `t`, and `after` is what has
happened since. -/
structure Latest (s : Session) (steps : List Step) (s' : Session) (r : String) (t : Session)
    (after : List Step) : Prop where
  sent : ∃ before x u, steps = before ++ x :: after ∧ s.run? before = some u ∧ Moves u x t ∧
    t.sent = u.sent ++ [.fetchRoutes r]
  run : t.run? after = some s'
  last : s'.routeRequests = t.routeRequests

theorem not_fetching_step {s s' : Session} {x : Step} (hMoves : Moves s x s')
    (hSame : s'.routeRequests = s.routeRequests) (h : s.planner.results.progress ≠ .fetching) :
    s'.planner.results.progress ≠ .fetching := by
  cases course_of_moves hMoves with
  | calm _ hResults _ => rwa [hResults]
  | picks _ _ hPick _ => rwa [(SelectionRule.pick_eq_ok hPick).2.2.1]
  | sends r _ _ _ hSent => simp [routeRequests_of_sent hSent] at hSame
  | settles _ r a _ _ _ _ hAfter =>
    rw [hAfter]
    exact Requests.settle_progress_ne_fetching r a
  | drops _ _ _ _ _ _ _ hAfter => rwa [hAfter]

/-- Routes that are on their way have been requested. -/
theorem exists_latest {s s' : Session} {steps : List Step}
    (hStart : s.planner.results.progress ≠ .fetching) (hRun : s.run? steps = some s')
    (hFetching : s'.planner.results.progress = .fetching) :
    ∃ r t after, Latest s steps s' r t after := by
  have hEither : s'.planner.results.progress ≠ .fetching ∨
      ∃ r t after, Latest s steps s' r t after := by
    refine run_induction
      (P := fun steps u => u.planner.results.progress ≠ .fetching ∨
        ∃ r t after, Latest s steps u r t after) (Or.inl hStart) ?_ hRun
    intro steps u x u' hBefore ih hMoves
    rcases routeRequests_step hMoves with hSame | ⟨r, hSent⟩
    · rcases ih with hNot | ⟨r, t, after, ⟨before, y, v, rfl, hv, hy, hSent⟩, hAfter, hLast⟩
      · exact Or.inl (not_fetching_step hMoves hSame hNot)
      · refine Or.inr ⟨r, t, after ++ [x], ⟨before, y, v, by simp, hv, hy, hSent⟩, ?_, ?_⟩
        · exact run?_concat_eq_some_iff.mpr ⟨u, hAfter, hMoves⟩
        · exact hSame.trans hLast
    · exact Or.inr ⟨r, u', [], ⟨steps, x, u, rfl, hBefore, hMoves, hSent⟩, rfl, rfl⟩
  exact hEither.resolve_left fun hNot => hNot hFetching

/-! ## What becomes of it -/

/-- A step answers what was sent at a place, and the query is complete. -/
def Serves (place : Nat) (s : Session) (x : Step) : Prop :=
  (∃ a, x = .answer place a) ∧ s.planner.query.isComplete

/-- What has been sent at a place is a request, and it waits. -/
def Copy (s : Session) (r : String) (place : Nat) : Prop :=
  place ∈ s.waiting ∧ s.sent[place]? = some (.fetchRoutes r)

/-- The latest request and its copies have all been answered, and never while the query was
complete. -/
def Stranded (s : Session) (steps : List Step) (s' : Session) : Prop :=
  ∃ r t after, Latest s steps s' r t after ∧
    ∀ place, t.Copy r place →
      (∃ a, .answer place a ∈ after) ∧ ¬ t.Happens after (Serves place)

/-- Since the latest request was sent, nothing has taken its place; and its routes are on their way
as long as no copy of it has been answered while the query was complete. -/
structure Since (t : Session) (r : String) (after : List Step) (s : Session) : Prop where
  info : s.planner.info.isSome
  request : s.planner.results.request = some r
  fetching : s.planner.results.progress = .fetching ↔
    ∀ place, t.Copy r place → ¬ t.Happens after (Serves place)

theorem since_start {s t : Session} {x : Step} {r : String} (hMoves : Moves s x t)
    (hSent : t.sent = s.sent ++ [.fetchRoutes r]) : Since t r [] t := by
  cases course_of_moves hMoves with
  | calm _ _ hCalm =>
    rcases hCalm with hCalm | hCalm
    · simp [hCalm] at hSent
    · simp [hCalm] at hSent
  | picks _ _ _ hCalm => simp [hCalm] at hSent
  | sends r' hInfo _ hResults hSent' =>
    obtain rfl : r' = r := by simpa [hSent'] using hSent
    exact ⟨hInfo, by simp [hResults], by simp [hResults]⟩
  | settles _ _ _ _ _ _ _ hAfter => simp [hAfter] at hSent
  | drops _ _ _ _ _ _ _ hAfter => simp [hAfter] at hSent

/-- As long as no request is sent, what waits at a request is a copy that has not been answered. -/
theorem copy_of_waiting {t s : Session} {r : String} {after : List Step} {place : Nat}
    (hTidy : t.Tidy) (hRun : t.run? after = some s) (hLast : s.routeRequests = t.routeRequests)
    (hWaits : place ∈ s.waiting) (hPlace : s.sent[place]? = some (.fetchRoutes r)) :
    t.Copy r place ∧ ∀ a, .answer place a ∉ after := by
  have hThere := sent_of_routeRequests_eq (sent_run hRun) hLast hPlace
  have hLt := (List.getElem?_eq_some_iff.mp hThere).1
  obtain ⟨hBefore, hNever⟩ := (waiting_run_iff hTidy hLt hRun).mp hWaits
  exact ⟨⟨hBefore, hThere⟩, hNever⟩

/-- What a step that sends no request can do to the results of the latest request `r`, which has
been sent by the time of `t`. -/
inductive Aftermath (t : Session) (r : String) (s : Session) (x : Step) (s' : Session) : Prop
  /-- No copy of the request is served, and the results stay. -/
  | kept (hNone : ∀ place, t.Copy r place → ¬ Serves place s x)
      (hResults : s'.planner.results = s.planner.results)
  /-- The user picks an itinerary. -/
  | picked (index : Nat) (hStep : x = .input (.select index))
      (hPick : s.planner.rule.pick s.planner.results index = .ok s'.planner.results)
  /-- A copy of the request is answered while the query makes the request. -/
  | served (place : Nat) (a : RoutesAnswer) (hStep : x = .answer place (.routes a))
      (hCopy : t.Copy r place) (hRequest : s.planner.request = some r)
      (hResults : s'.planner.results = Requests.settle r a)

theorem aftermath_of_moves {t s s' : Session} {r : String} {after : List Step} {x : Step}
    (hTidy : t.Tidy) (hRun : t.run? after = some s) (hAgreed : s.planner.Agreed)
    (hInfo : s.planner.info.isSome) (hRequest : s.planner.results.request = some r)
    (hMoves : Moves s x s') (hLast : s.routeRequests = t.routeRequests)
    (hSame : s'.routeRequests = s.routeRequests) : Aftermath t r s x s' := by
  -- While the query is complete, its request is the latest one.
  have hLatest : s.planner.query.isComplete → s.planner.request = some r := fun hComplete =>
    (hAgreed hInfo hComplete).symm.trans hRequest
  cases course_of_moves hMoves with
  | calm hAnswer hResults _ =>
    refine .kept ?_ hResults
    rintro place hCopy ⟨⟨a, hx⟩, -⟩
    have hService := hAnswer place a hx
    rw [sent_stays (sent_run hRun) hCopy.2] at hService
    cases hService
  | picks index hStep hPick _ => exact .picked index hStep hPick
  | sends r' _ _ _ hSent => simp [routeRequests_of_sent hSent] at hSame
  | settles place r' a hStep hWaits hPlace hMade hAfter =>
    obtain rfl : r = r' :=
      Option.some.inj ((hLatest (Planner.isComplete_of_request hMade)).symm.trans hMade)
    obtain ⟨hCopy, -⟩ := copy_of_waiting hTidy hRun hLast hWaits hPlace
    exact .served place a hStep hCopy hMade (by rw [hAfter]; rfl)
  | drops place r' a hStep hWaits hPlace hMade hAfter =>
    refine .kept ?_ (by rw [hAfter]; rfl)
    rintro place' hCopy ⟨⟨a', hx⟩, hComplete⟩
    rw [hStep] at hx
    cases hx
    rw [sent_stays (sent_run hRun) hCopy.2] at hPlace
    cases hPlace
    exact hMade (hLatest hComplete)

/-- A step that serves no copy and leaves the latest request as it is. -/
theorem Since.concat {t s s' : Session} {r : String} {after : List Step} {x : Step}
    (h : Since t r after s) (hRun : t.run? after = some s) (hMoves : Moves s x s')
    (hServes : ∀ place, t.Copy r place → ¬ Serves place s x)
    (hRequest : s'.planner.results.request = s.planner.results.request)
    (hProgress : s'.planner.results.progress = s.planner.results.progress) :
    Since t r (after ++ [x]) s' := by
  refine ⟨info_step hMoves h.info, hRequest.trans h.request, ?_⟩
  rw [hProgress, h.fetching]
  refine forall₂_congr fun place hCopy => not_congr ?_
  rw [happens_concat_iff hRun]
  exact (or_iff_left (hServes place hCopy)).symm

theorem since_step {t s s' : Session} {r : String} {after : List Step} {x : Step}
    (hTidy : t.Tidy) (hRun : t.run? after = some s) (hAgreed : s.planner.Agreed)
    (h : Since t r after s) (hMoves : Moves s x s') (hLast : s.routeRequests = t.routeRequests)
    (hSame : s'.routeRequests = s.routeRequests) : Since t r (after ++ [x]) s' := by
  cases aftermath_of_moves hTidy hRun hAgreed h.info h.request hMoves hLast hSame with
  | kept hNone hResults =>
    exact h.concat hRun hMoves hNone (by rw [hResults]) (by rw [hResults])
  | picked _ hStep hPick =>
    obtain ⟨-, hRequest, hProgress, -⟩ := SelectionRule.pick_eq_ok hPick
    refine h.concat hRun hMoves ?_ hRequest hProgress
    rintro place - ⟨⟨a, hx⟩, -⟩
    rw [hStep] at hx
    cases hx
  | served place a hStep hCopy hRequest hResults =>
    have hComplete := Planner.isComplete_of_request hRequest
    refine ⟨info_step hMoves h.info, by simp [hResults], iff_of_false ?_ ?_⟩
    · rw [hResults]
      exact Requests.settle_progress_ne_fetching r a
    · intro hNever
      exact hNever place hCopy ((happens_concat_iff hRun).mpr (Or.inr ⟨⟨_, hStep⟩, hComplete⟩))

theorem since_run {t s : Session} {r : String} {after : List Step} (hTidy : t.Tidy)
    (hAgreed : t.planner.Agreed) (hStart : Since t r [] t) (hRun : t.run? after = some s)
    (hLast : s.routeRequests = t.routeRequests) : Since t r after s := by
  refine run_induction
    (P := fun after s => s.routeRequests = t.routeRequests → Since t r after s)
    (fun _ => hStart) ?_ hRun hLast
  intro after u x u' hBefore ih hMoves hLast'
  have hSame := routeRequests_same hBefore hMoves hLast'
  have hLast := hSame.symm.trans hLast'
  exact since_step hTidy hBefore (agreed_run hBefore hAgreed) (ih hLast) hMoves hLast hSame

theorem since_latest {p : Planner} {steps after : List Step} {t s : Session} {r : String}
    (hAgreed : p.Agreed) (h : Latest (opened p) steps s r t after) :
    t.Tidy ∧ Since t r after s := by
  obtain ⟨before, x, u, -, hBefore, hMoves, hSent⟩ := h.sent
  have hRun : (opened p).run? (before ++ [x]) = some t :=
    run?_concat_eq_some_iff.mpr ⟨u, hBefore, hMoves⟩
  have hTidy := tidy_run (tidy_opened p) hRun
  have ht := agreed_run hRun (agreed_opened hAgreed)
  exact ⟨hTidy, since_run hTidy ht (since_start hMoves hSent) h.run h.last⟩

/-- A copy that has been answered does not wait, and every other one does. -/
theorem Latest.awaits_iff {s s' t : Session} {steps after : List Step} {r : String}
    (h : Latest s steps s' r t after) (hTidy : t.Tidy) :
    s'.Awaits (.fetchRoutes r) ↔ ∃ place, t.Copy r place ∧ ∀ a, .answer place a ∉ after := by
  constructor
  · rintro ⟨place, hWaits, hPlace⟩
    exact ⟨place, copy_of_waiting hTidy h.run h.last hWaits hPlace⟩
  · rintro ⟨place, hCopy, hNever⟩
    refine ⟨place, ?_, sent_stays (sent_run h.run) hCopy.2⟩
    exact (waiting_run_iff hTidy (hTidy.lt place hCopy.1) h.run).mpr ⟨hCopy.1, hNever⟩

/-- Where a request is stranded, its routes are said to be on their way and it does not wait. -/
theorem unattended_of_stranded {p : Planner} {steps : List Step} {s : Session} (hAgreed : p.Agreed)
    (h : Stranded (opened p) steps s) :
    s.planner.results.progress = .fetching ∧
      ∀ r, s.planner.results.request = some r → ¬ s.Awaits (.fetchRoutes r) := by
  obtain ⟨r, t, after, hLatest, hCopies⟩ := h
  obtain ⟨hTidy, hSince⟩ := since_latest hAgreed hLatest
  refine ⟨hSince.fetching.mpr fun place hCopy => (hCopies place hCopy).2, ?_⟩
  intro r' hRequest hAwaits
  obtain rfl : r = r' := Option.some.inj (hSince.request.symm.trans hRequest)
  obtain ⟨place, hCopy, hNever⟩ := (hLatest.awaits_iff hTidy).mp hAwaits
  obtain ⟨a, ha⟩ := (hCopies place hCopy).1
  exact hNever a ha

/-- Routes that are said to be on their way are awaited unless their request is stranded. -/
theorem awaits_or_stranded {p : Planner} {steps : List Step} {s : Session} (hAgreed : p.Agreed)
    (hIdle : p.results.progress ≠ .fetching) (hRun : (opened p).run? steps = some s)
    (hFetching : s.planner.results.progress = .fetching) :
    (∃ r, s.planner.results.request = some r ∧ s.Awaits (.fetchRoutes r)) ∨
      Stranded (opened p) steps s := by
  obtain ⟨r, t, after, hLatest⟩ := exists_latest hIdle hRun hFetching
  obtain ⟨hTidy, hSince⟩ := since_latest hAgreed hLatest
  by_cases hAwaits : s.Awaits (.fetchRoutes r)
  · exact Or.inl ⟨r, hSince.request, hAwaits⟩
  · refine Or.inr ⟨r, t, after, hLatest, fun place hCopy => ⟨?_, ?_⟩⟩
    · by_contra hNever
      exact hAwaits ((hLatest.awaits_iff hTidy).mpr ⟨place, hCopy, fun a ha => hNever ⟨a, ha⟩⟩)
    · exact hSince.fetching.mp hFetching place hCopy

/-- **When a complete query waits for nothing.** After a run a complete query whose routes are said
to be on their way has a request for them waiting, unless the latest request is stranded: it and
its copies have all been answered, each while the query was not complete. A session that is over
with a complete query says that routes are on their way exactly in that case. -/
theorem attended_iff_not_stranded {c : Configuration} {location : Url} {now : Instant}
    {p : Planner} (hStart : Planner.start c location now = .ok p) {steps : List Step} {s : Session}
    (hRun : (opened p).run? steps = some s) :
    (s.Attended ↔
      ¬ (s.planner.info.isSome ∧ s.planner.query.isComplete ∧ Stranded (opened p) steps s)) ∧
    (s.isOver → s.planner.info.isSome → s.planner.query.isComplete →
      (s.planner.results.progress = .fetching ↔ Stranded (opened p) steps s)) := by
  have hAgreed := Planner.agreed_start hStart
  have hIdle : p.results.progress ≠ .fetching := by
    rw [(Planner.start_inert hStart).2]
    exact nofun
  refine ⟨⟨?_, ?_⟩, ?_⟩
  · rintro hAttended ⟨hInfo, hComplete, hStranded⟩
    obtain ⟨hFetching, hNot⟩ := unattended_of_stranded hAgreed hStranded
    obtain ⟨r, hRequest, hAwaits⟩ := hAttended hInfo hComplete hFetching
    exact hNot r hRequest hAwaits
  · intro hNot hInfo hComplete hFetching
    refine (awaits_or_stranded hAgreed hIdle hRun hFetching).resolve_right ?_
    exact fun hStranded => hNot ⟨hInfo, hComplete, hStranded⟩
  · intro hOver hInfo hComplete
    refine ⟨fun hFetching => ?_, fun hStranded => (unattended_of_stranded hAgreed hStranded).1⟩
    refine (awaits_or_stranded hAgreed hIdle hRun hFetching).resolve_left ?_
    rintro ⟨r, -, hAwaits⟩
    exact not_awaits_of_isOver hOver _ hAwaits

/-! ## Detours -/

theorem moves_quiet {s : Session} {e : Edit} (hOpen : s.isOpen)
    (hQuiet : (s.planner.edited e).request = none ∨ s.planner.resends e = false ∧
      s.planner.results.request = (s.planner.edited e).request) :
    ∃ p : Planner, Moves s (.input (.edit e)) (s.withPlanner p) ∧
      p.results = s.planner.results ∧ p.info = s.planner.info ∧
      p.requests = s.planner.requests ∧ p.query = (s.planner.query.apply e).1 := by
  obtain ⟨hEffects, hResults⟩ := Planner.edit_quiet hQuiet
  have hMoves := Moves.input (.edit e) hOpen
  have hAfter : s.carryOut (s.planner.edit e) = s.withPlanner (s.planner.edit e).planner := by
    simp [carryOut, withPlanner, hEffects]
  refine ⟨(s.planner.edit e).planner, hAfter ▸ hMoves, hResults, ?_, ?_, ?_⟩
  · exact Planner.update_info s.planner (.edit e)
  · exact Planner.update_requests s.planner (.edit e)
  · exact Planner.update_query s.planner (.edit e)

/-- Any request on its way can be stranded: the query loses an endpoint, the answer arrives, and
then the endpoint is what it was. -/
theorem run_detour {t : Session} {r : String} {place : Nat} (e e' : Edit) (hOpen : t.isOpen)
    (hWaiting : t.waiting = [place]) (hPlace : t.sent[place]? = some (.fetchRoutes r))
    (hRequest : t.planner.request = some r) (hLatest : t.planner.results.request = some r)
    (hGone : (t.planner.query.apply e).1.isComplete = false)
    (hBack : ((t.planner.query.apply e).1.apply e').1 = t.planner.query)
    (hAgain : ((t.planner.query.apply e).1.apply e').2.auxiliary = false) (a : RoutesAnswer) :
    ∃ p : Planner,
      t.run? [.input (.edit e), .answer place (.routes a), .input (.edit e')] =
        some ((t.received place).withPlanner p) ∧
      p.info = t.planner.info ∧ p.query = t.planner.query ∧ p.results = t.planner.results := by
  -- Without the endpoint there is no request, so nothing is sent and no answer counts.
  obtain ⟨p₁, hMoves₁, hResults₁, hInfo₁, hRequests₁, hQuery₁⟩ :=
    moves_quiet (e := e) hOpen (Or.inl (Planner.request_eq_none_iff.mpr hGone))
  have hNone : p₁.request = none := by
    rw [Planner.request_eq_none_iff, hQuery₁]
    exact hGone
  have hMoves₂ : Moves (t.withPlanner p₁) (.answer place (.routes a)) _ :=
    .routes place r a (by simp [hWaiting]) hPlace
  rw [Planner.update_routes_of_ne (by simp [hNone]), carryOut_nothing] at hMoves₂
  -- With it, the query makes the request that it made last.
  have hSame : p₁.results.request = (p₁.edited e').request := by
    show p₁.results.request = p₁.requests.canonical (p₁.query.apply e').1
    rw [hResults₁, hLatest, hRequests₁, hQuery₁, hBack]
    exact hRequest.symm
  have hQuiet : p₁.resends e' = false := by
    rw [Planner.resends, hQuery₁, hAgain, Bool.false_and]
  obtain ⟨p₃, hMoves₃, hResults₃, hInfo₃, -, hQuery₃⟩ :=
    moves_quiet (s := (t.received place).withPlanner p₁) (e := e') hOpen
      (Or.inr ⟨hQuiet, hSame⟩)
  refine ⟨p₃, ?_, hInfo₃.trans hInfo₁, ?_, hResults₃.trans hResults₁⟩
  · rw [run?_of_moves hMoves₁, run?_of_moves hMoves₂]
    exact run?_of_moves hMoves₃ []
  · rw [hQuery₃, withPlanner_planner, hQuery₁]
    exact hBack

/-- The usual trip loses its destination while its routes are on their way, and gets it back. -/
def detour : List Step :=
  asking ++ [.input (.edit (.toDestination none)), .answer 1 (.routes (.ok [])),
    .input (.edit (.toDestination (some ⟨.ofInt 3, .ofInt 4⟩)))] ++ [.close]

theorem run_usual_detour : ∃ s, (opened Planner.usual).run? detour = some s ∧ s.isOver ∧
    s.planner.info.isSome ∧ s.planner.query.isComplete ∧
    s.planner.results.progress = .fetching := by
  obtain ⟨t, r, hAsking, hOpen, hWaiting, hSent, hInfo, hRequest, hLatest, hFetching, hQuery⟩ :=
    run_asking
  obtain ⟨p, hDetour, hInfo', hQuery', hResults⟩ :=
    run_detour (r := r) (.toDestination none) (.toDestination (some ⟨.ofInt 3, .ofInt 4⟩)) hOpen
      hWaiting (by simp [hSent]) hRequest hLatest (by rw [hQuery]; decide +kernel)
      (by rw [hQuery]; decide +kernel) (by rw [hQuery]; decide +kernel) (.ok [])
  have hRun : ∀ steps, (opened Planner.usual).run? (asking ++ steps) = t.run? steps := by
    intro steps
    rw [run?_append, hAsking, Option.bind_some]
  refine ⟨((t.received 1).withPlanner p).close, ?_, ?_, ?_, ?_, ?_⟩
  · exact run?_concat_eq_some_iff.mpr ⟨_, (hRun _).trans hDetour, .close hOpen⟩
  · simp [isOver, close, hWaiting]
  · exact hInfo' ▸ hInfo
  · exact hQuery' ▸ Planner.isComplete_of_request hRequest
  · exact hResults ▸ hFetching

theorem stranded_usual : ∃ s, (opened Planner.usual).run? detour = some s ∧
    Stranded (opened Planner.usual) detour s := by
  obtain ⟨s, hRun, hOver, hInfo, hComplete, hFetching⟩ := run_usual_detour
  refine ⟨s, hRun, ?_⟩
  exact ((attended_iff_not_stranded Planner.start_usual hRun).2 hOver hInfo hComplete).mp hFetching

/-- After the detour the session is over, with a complete query that waits for nothing. -/
theorem unattended_usual : ∃ s,
    Planner.start {} Planner.usualPage Planner.newYear = .ok Planner.usual ∧
      (opened Planner.usual).run? detour = some s ∧ s.isOver ∧ ¬ s.Attended := by
  obtain ⟨s, hRun, hOver, hInfo, hComplete, hFetching⟩ := run_usual_detour
  refine ⟨s, Planner.start_usual, hRun, hOver, fun hAttended => ?_⟩
  obtain ⟨r, -, hAwaits⟩ := hAttended hInfo hComplete hFetching
  exact not_awaits_of_isOver hOver _ hAwaits

end TripPlanner.Session
