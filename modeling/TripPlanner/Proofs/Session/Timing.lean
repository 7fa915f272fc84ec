import TripPlanner.Proofs.Session.Courses

/-!
# The outcome does not depend on timing

A session leaves open when answers arrive. With a server that always gives the same answer to the
same request (`Server`), and a user who neither picks itineraries nor clears endpoints
(`Input.Steady`), it does not matter in the end: sessions in which the user does the same things
are over with the same planner (`outcome_eq`).

* `Planner.bare`: what of a planner owes nothing to the server. It follows the user alone, so it is
  the same in both sessions at every time (`bare_run`).
* `Ahead`: what remains depends on the server and on what still waits. Where nothing waits, it
  depends on the server only.
-/

namespace TripPlanner

namespace Planner

/-- A planner without anything that came from the server. -/
def bare (p : Planner) : Planner := { p with results := .idle, info := none }

/-- Events act on a planner without regard to what came from the server. -/
theorem bare_update (p : Planner) (e : Event) :
    (p.update e).planner.bare = (p.bare.update e).planner.bare := by
  rw [update_eq p e, update_eq p.bare e]
  rfl

theorem bare_update_info (p : Planner) (a : InfoAnswer) :
    (p.update (.info a)).planner.bare = p.bare := by
  rw [update_eq]
  rfl

theorem bare_update_routes (p : Planner) (r : String) (a : RoutesAnswer) :
    (p.update (.routes r a)).planner.bare = p.bare := by
  rw [update_eq]
  rfl

theorem eq_of_bare {p p' : Planner} (h : p.bare = p'.bare) (hInfo : p.info = p'.info)
    (hResults : p.results = p'.results) : p = p' := by
  calc p = { p.bare with results := p.results, info := p.info } := rfl
    _ = { p'.bare with results := p'.results, info := p'.info } := by rw [h, hInfo, hResults]
    _ = p' := rfl

theorem request_of_bare {p p' : Planner} (h : p.bare = p'.bare) : p.request = p'.request := by
  show p.bare.request = p'.bare.request
  rw [h]

end Planner

/-- A server that gives the same answer however often it is asked. -/
structure Server where
  info : InfoAnswer
  routes : String → RoutesAnswer

/-- The answer of a server to what is sent. -/
def Server.answer (v : Server) : Effect → Answer
  | .fetchInfo => .info v.info
  | .fetchRoutes r => .routes (v.routes r)

/-- What the server says about itself, if it does. -/
def Server.description (v : Server) : Option ServiceInfo := v.info.toOption

/-- The user neither picks an itinerary nor clears an endpoint. -/
def Input.Steady : Input → Prop
  | .edit e => e.KeepsEnds
  | .select _ => False
  | .mount | .refresh => True

namespace Session

/-- What the user does in a run, in order. -/
def inputs (steps : List Step) : List Input :=
  steps.filterMap fun
    | .input i => some i
    | _ => none

/-- Every answer in a run to `s` is the server's. -/
def AnsweredBy (v : Server) (steps : List Step) (s : Session) : Prop :=
  ∀ place a, .answer place a ∈ steps → (s.sent[place]?).map v.answer = some a

/-! ## What follows the user -/

theorem inputs_append (steps after : List Step) :
    inputs (steps ++ after) = inputs steps ++ inputs after := List.filterMap_append

theorem AnsweredBy.append {v : Server} {s s' : Session} {steps after : List Step}
    (h : AnsweredBy v steps s) (hRun : s.run? after = some s') (h' : AnsweredBy v after s') :
    AnsweredBy v (steps ++ after) s' := by
  intro place a hMem
  rcases List.mem_append.mp hMem with hEarlier | hLater
  · obtain ⟨effect, hSent, hAnswer⟩ := Option.map_eq_some_iff.mp (h place a hEarlier)
    rw [sent_stays (sent_run hRun) hSent, Option.map_some, hAnswer]
  · exact h' place a hLater

/-- What owes nothing to the server follows the user. -/
theorem bare_run {s s' : Session} {steps : List Step} (hRun : s.run? steps = some s') :
    s'.planner.bare = (s.planner.run ((inputs steps).map Input.event)).bare := by
  refine run_induction
    (P := fun steps t => t.planner.bare = (s.planner.run ((inputs steps).map Input.event)).bare)
    rfl ?_ hRun
  intro steps t x t' _ ih hMoves
  rw [inputs_append, List.map_append]
  cases hMoves with
  | input i hOpen =>
    show (t.planner.update i.event).planner.bare = _
    rw [Planner.bare_update, ih, ← Planner.bare_update, ← Planner.run_concat]
    rfl
  | info place a hWaits hSent =>
    show (t.planner.update (.info a)).planner.bare = _
    rw [Planner.bare_update_info, ih]
    simp [inputs]
  | routes place r a hWaits hSent =>
    show (t.planner.update (.routes r a)).planner.bare = _
    rw [Planner.bare_update_routes, ih]
    simp [inputs]
  | close hOpen =>
    show t.planner.bare = _
    rw [ih]
    simp [inputs]

/-! ## What the server adds -/

/-- What the server will have said once nothing waits. -/
structure Ahead (v : Server) (s : Session) : Prop where
  info : s.planner.info = v.description ∨ s.planner.info = none ∧ s.Awaits .fetchInfo
  idle : s.planner.info = none ∨ s.planner.request = none →
    s.planner.results = .idle ∧ ∀ r, .fetchRoutes r ∉ s.sent
  results : ∀ r, s.planner.info.isSome → s.planner.request = some r →
    s.planner.results = Requests.settle r (v.routes r) ∨
      s.planner.results.progress = .fetching ∧ s.Awaits (.fetchRoutes r)

theorem isComplete_step {s s' : Session} {x : Step} (hSteady : ∀ i, x = .input i → i.Steady)
    (hMoves : Moves s x s') (h : s.planner.query.isComplete) : s'.planner.query.isComplete := by
  cases hMoves with
  | input i hOpen =>
    show (s.planner.update i.event).planner.query.isComplete
    rw [Planner.update_query]
    cases i with
    | edit e => exact Query.isComplete_apply (hSteady _ rfl) h
    | mount => exact h
    | select index => exact h
    | refresh => exact h
  | info place a hWaits hSent =>
    show (s.planner.update (.info a)).planner.query.isComplete
    rw [Planner.update_query]
    exact h
  | routes place r a hWaits hSent =>
    show (s.planner.update (.routes r a)).planner.query.isComplete
    rw [Planner.update_query]
    exact h
  | close hOpen => exact h

theorem ahead_info {v : Server} {s s' : Session} {x : Step}
    (hServer : ∀ place a, x = .answer place a → (s.sent[place]?).map v.answer = some a)
    (hTidy : s.Tidy) (h : Ahead v s) (hMoves : Moves s x s') :
    s'.planner.info = v.description ∨ s'.planner.info = none ∧ s'.Awaits .fetchInfo := by
  have hKept : (∀ place a, x = .answer place a → s.sent[place]? ≠ some .fetchInfo) →
      s'.planner.info = s.planner.info →
      s'.planner.info = v.description ∨ s'.planner.info = none ∧ s'.Awaits .fetchInfo := by
    intro hOther hSame
    rcases h.info with hKnown | ⟨hNone, hAwaits⟩
    · exact Or.inl (hSame.trans hKnown)
    · refine Or.inr ⟨hSame.trans hNone, (awaits_step hTidy hAwaits hMoves).resolve_right ?_⟩
      rintro ⟨place, a, hx, hPlace⟩
      exact hOther place a hx hPlace
  cases hMoves with
  | input i hOpen =>
    refine hKept nofun ((Planner.update_info _ _).trans ?_)
    cases i <;> rfl
  | info place a hWaits hSent =>
    have hAnswer := hServer place _ rfl
    rw [hSent] at hAnswer
    cases hAnswer
    left
    show (s.planner.update (.info v.info)).planner.info = v.description
    rw [Planner.update_info, Server.description]
    cases hInfo : v.info with
    | ok description => rfl
    | error fault =>
      have hNone : v.description = none := by rw [Server.description, hInfo]; rfl
      rcases h.info with hKnown | ⟨hNothing, -⟩
      · exact hKnown.trans hNone
      · exact hNothing
  | routes place r a hWaits hSent =>
    refine hKept ?_ (Planner.update_info _ _)
    intro place' a' hx hPlace
    cases hx
    rw [hSent] at hPlace
    cases hPlace
  | close hOpen => exact hKept nofun rfl

theorem ahead_idle {v : Server} {s s' : Session} {x : Step}
    (hSteady : ∀ i, x = .input i → i.Steady) (h : Ahead v s) (hMoves : Moves s x s')
    (hEarly : s'.planner.info = none ∨ s'.planner.request = none) :
    s'.planner.results = .idle ∧ ∀ r, .fetchRoutes r ∉ s'.sent := by
  have hBefore : s.planner.info = none ∨ s.planner.request = none := by
    rcases hEarly with hNone | hNone
    · left
      by_contra hSome
      have := info_step hMoves (Option.ne_none_iff_isSome.mp hSome)
      simp [hNone] at this
    · right
      rw [Planner.request_eq_none_iff] at hNone ⊢
      by_contra hComplete
      have := isComplete_step hSteady hMoves (by simpa using hComplete)
      simp [hNone] at this
  obtain ⟨hIdle, hNever⟩ := h.idle hBefore
  cases course_of_moves hMoves with
  | calm _ hResults hSent =>
    refine ⟨hResults.trans hIdle, fun r => ?_⟩
    rcases hSent with hSent | hSent
    · rw [hSent]
      exact hNever r
    · rw [hSent]
      simpa using hNever r
  | picks _ hStep _ _ => exact (hSteady _ hStep).elim
  | sends r hInfo hRequest _ _ =>
    rcases hEarly with hNone | hNone
    · simp [hNone] at hInfo
    · simp [hNone] at hRequest
  | settles _ r _ _ _ hPlace _ _ => exact absurd (List.mem_of_getElem? hPlace) (hNever r)
  | drops _ r _ _ _ hPlace _ _ => exact absurd (List.mem_of_getElem? hPlace) (hNever r)

theorem ahead_results {v : Server} {s s' : Session} {x : Step}
    (hSteady : ∀ i, x = .input i → i.Steady)
    (hServer : ∀ place a, x = .answer place a → (s.sent[place]?).map v.answer = some a)
    (hTidy : s.Tidy) (hAgreed : s.planner.Agreed) (hAgreed' : s'.planner.Agreed) (h : Ahead v s)
    (hMoves : Moves s x s') {r : String} (hInfo : s'.planner.info.isSome)
    (hRequest : s'.planner.request = some r) :
    s'.planner.results = Requests.settle r (v.routes r) ∨
      s'.planner.results.progress = .fetching ∧ s'.Awaits (.fetchRoutes r) := by
  cases course_of_moves hMoves with
  | calm hAnswer hResults _ =>
    -- The results stay. They have been requested, so they are those of the same request.
    have hLatest : s.planner.results.request = some r := by
      rw [← hResults, hAgreed' hInfo (Planner.isComplete_of_request hRequest), hRequest]
    have hReady : ¬ (s.planner.info = none ∨ s.planner.request = none) := by
      intro hEarly
      rw [(h.idle hEarly).1] at hLatest
      cases hLatest
    obtain ⟨hSome, hMade⟩ := not_or.mp hReady
    have hInfo' := Option.ne_none_iff_isSome.mp hSome
    obtain ⟨r', hr'⟩ := Option.ne_none_iff_exists'.mp hMade
    obtain rfl : r' = r := by
      rw [hAgreed hInfo' (Planner.isComplete_of_request hr'), hr'] at hLatest
      exact Option.some.inj hLatest
    rw [hResults]
    refine (h.results r' hInfo' hr').imp_right fun ⟨hFetching, hAwaits⟩ => ⟨hFetching, ?_⟩
    refine (awaits_step hTidy hAwaits hMoves).resolve_right ?_
    rintro ⟨place, a, hx, hPlace⟩
    rw [hAnswer place a hx] at hPlace
    cases hPlace
  | picks _ hStep _ _ => exact (hSteady _ hStep).elim
  | sends r' _ hRequest' hResults hSent =>
    obtain rfl : r' = r := Option.some.inj (hRequest'.symm.trans hRequest)
    exact Or.inr ⟨by simp [hResults], awaits_of_sent hMoves hSent⟩
  | settles place r' a hStep _ hPlace hRequest' hAfter =>
    subst hAfter
    obtain rfl : r' = r := Option.some.inj (hRequest'.symm.trans hRequest)
    have hGiven := hServer place _ hStep
    rw [hPlace] at hGiven
    cases hGiven
    exact Or.inl rfl
  | drops place r' a hStep _ hPlace hRequest' hAfter =>
    subst hAfter
    refine (h.results r hInfo hRequest).imp_right fun ⟨hFetching, hAwaits⟩ => ⟨hFetching, ?_⟩
    refine (awaits_step hTidy hAwaits hMoves).resolve_right ?_
    rintro ⟨place', a', hx, hPlace'⟩
    rw [hStep] at hx
    cases hx
    rw [hPlace] at hPlace'
    cases hPlace'
    exact hRequest' hRequest

theorem ahead_opened {p : Planner} (hInfo : p.info = none) (hResults : p.results = .idle)
    (v : Server) : Ahead v (opened p) where
  info := Or.inr ⟨hInfo, 0, List.mem_cons_self, rfl⟩
  idle := fun _ => ⟨hResults, fun r hSent => by cases List.mem_singleton.mp hSent⟩
  results := by
    intro r hSome
    have hNone : (opened p).planner.info = none := hInfo
    simp [hNone] at hSome

theorem sent_of_answer {s s' : Session} {place : Nat} {a : Answer}
    (h : Moves s (.answer place a) s') : ∃ effect, s.sent[place]? = some effect := by
  cases h with
  | info _ a hWaits hSent => exact ⟨_, hSent⟩
  | routes _ r a hWaits hSent => exact ⟨_, hSent⟩

theorem ahead_run {p : Planner} (hAgreed : p.Agreed) (hInfo : p.info = none)
    (hResults : p.results = .idle) {v : Server} {steps : List Step} {s : Session}
    (hRun : (opened p).run? steps = some s) (hSteady : ∀ i ∈ inputs steps, i.Steady)
    (hServer : AnsweredBy v steps s) : Ahead v s := by
  refine run_induction
    (P := fun steps t => t.sent <+: s.sent → (∀ i ∈ inputs steps, i.Steady) →
      AnsweredBy v steps s → Ahead v t)
    (fun _ _ _ => ahead_opened hInfo hResults v) ?_ hRun List.prefix_rfl hSteady hServer
  intro steps t x t' hBefore ih hMoves hSent hSteady' hServer'
  have hEarlier : t.sent <+: s.sent := (sent_step hMoves).trans hSent
  have hx : ∀ i, x = .input i → i.Steady := by
    rintro i rfl
    exact hSteady' i (by simp [inputs])
  have hAnswer : ∀ place a, x = .answer place a → (t.sent[place]?).map v.answer = some a := by
    rintro place a rfl
    obtain ⟨effect, hPlace⟩ := sent_of_answer hMoves
    rw [hPlace, ← sent_stays hEarlier hPlace]
    exact hServer' place a (by simp)
  have hAhead : Ahead v t := by
    refine ih hEarlier (fun i hi => hSteady' i ?_) (fun place a ha => hServer' place a ?_)
    · rw [inputs_append]
      exact List.mem_append_left _ hi
    · exact List.mem_append_left _ ha
  have ht := agreed_run hBefore (agreed_opened hAgreed)
  have ht' := agreed_step hMoves ht
  have hTidy := tidy_run (tidy_opened p) hBefore
  exact ⟨ahead_info hAnswer hTidy hAhead hMoves, ahead_idle hx hAhead hMoves,
    fun r => ahead_results hx hAnswer hTidy ht ht' hAhead hMoves⟩

/-- Once nothing waits, what the server adds is its answers. -/
theorem Ahead.of_isOver {v : Server} {s : Session} (h : Ahead v s) (hOver : s.isOver) :
    s.planner.info = v.description ∧
      (s.planner.info = none ∨ s.planner.request = none → s.planner.results = .idle) ∧
      ∀ r, s.planner.info.isSome → s.planner.request = some r →
        s.planner.results = Requests.settle r (v.routes r) := by
  refine ⟨h.info.resolve_right fun hWaits => not_awaits_of_isOver hOver _ hWaits.2,
    fun hEarly => (h.idle hEarly).1, fun r hInfo hRequest => ?_⟩
  exact (h.results r hInfo hRequest).resolve_right fun hWaits =>
    not_awaits_of_isOver hOver _ hWaits.2

/-- **The outcome does not depend on timing.** Two sessions of one planner in which a steady user
does the same things, with a server that always gives the same answer to the same request, are over
with the same planner, whenever the answers arrive. If the server has described itself, the results
of a complete query are the server's answer to the request that the query makes: they have succeeded
with its itineraries where it has any to give, and failed where it gives a fault. -/
theorem outcome_eq {c : Configuration} {location : Url} {now : Instant} {p : Planner}
    (hStart : Planner.start c location now = .ok p) (v : Server) {steps steps' : List Step}
    {s s' : Session} (hRun : (opened p).run? steps = some s)
    (hRun' : (opened p).run? steps' = some s') (hInputs : inputs steps = inputs steps')
    (hSteady : ∀ i ∈ inputs steps, i.Steady) (hServer : AnsweredBy v steps s)
    (hServer' : AnsweredBy v steps' s') (hOver : s.isOver) (hOver' : s'.isOver) :
    s.planner = s'.planner ∧
      (v.description.isSome → s.planner.query.isComplete → ∃ r, s.planner.request = some r ∧
        s.planner.results = Requests.settle r (v.routes r) ∧
        (∀ paths, v.routes r = .ok paths → s.planner.results.progress = .succeeded ∧
          s.planner.results.paths.map Results.unpicked = paths.map Results.unpicked) ∧
        ∀ fault, v.routes r = .error fault → s.planner.results.progress = .failed ∧
          s.planner.results.paths = []) := by
  have hAgreed := Planner.agreed_start hStart
  obtain ⟨hInfo, hResults⟩ := Planner.start_inert hStart
  obtain ⟨hKnown, hIdle, hSettled⟩ :=
    (ahead_run hAgreed hInfo hResults hRun hSteady hServer).of_isOver hOver
  obtain ⟨hKnown', hIdle', hSettled'⟩ :=
    (ahead_run hAgreed hInfo hResults hRun' (hInputs ▸ hSteady) hServer').of_isOver hOver'
  have hBare : s.planner.bare = s'.planner.bare := by
    rw [bare_run hRun, bare_run hRun', hInputs]
  have hSameInfo : s.planner.info = s'.planner.info := hKnown.trans hKnown'.symm
  have hSameRequest : s.planner.request = s'.planner.request := Planner.request_of_bare hBare
  have hSameResults : s.planner.results = s'.planner.results := by
    by_cases hEarly : s.planner.info = none ∨ s.planner.request = none
    · rw [hIdle hEarly, hIdle' (hSameInfo ▸ hSameRequest ▸ hEarly)]
    · obtain ⟨hSome, hMade⟩ := not_or.mp hEarly
      obtain ⟨r, hr⟩ := Option.ne_none_iff_exists'.mp hMade
      have hIsSome := Option.ne_none_iff_isSome.mp hSome
      rw [hSettled r hIsSome hr, hSettled' r (hSameInfo ▸ hIsSome) (hSameRequest ▸ hr)]
  refine ⟨Planner.eq_of_bare hBare hSameInfo hSameResults, fun hDescribed hComplete => ?_⟩
  obtain ⟨r, hr⟩ : ∃ r, s.planner.request = some r := ⟨_, if_pos hComplete⟩
  have hOutcome := hSettled r (by rwa [hKnown]) hr
  refine ⟨r, hr, hOutcome, fun paths hPaths => ?_, fun fault hFault => ?_⟩
  · rw [hOutcome, hPaths]
    exact ⟨rfl, Results.map_unpicked_succeeded r paths⟩
  · rw [hOutcome, hFault]
    exact ⟨rfl, rfl⟩

/-- What a server gives that knows one way to go. -/
def oneWay : RoutesAnswer := .ok [.plain true]

/-- A server that gives the same way to go, whatever it is asked. -/
def usualRoutes : Server := ⟨.ok Planner.usualServer, fun _ => oneWay⟩

/-- A trip is requested twice, and the answers arrive in the wrong order. -/
def early : List Step :=
  asking ++ [.input .refresh, .close] ++ [.answer 2 (.routes oneWay)] ++
    [.answer 1 (.routes oneWay)]

/-- The same trip is edited in before the server has described itself, and is requested once. -/
def late : List Step :=
  [.input (.edit Planner.usualTrip), .input .refresh, .close,
    .answer 0 (.info (.ok Planner.usualServer))] ++ [.answer 1 (.routes oneWay)]

theorem run_early : ∃ s, (opened Planner.usual).run? early = some s ∧
    AnsweredBy usualRoutes early s ∧ s.isOver := by
  have hWaits : ((opened Planner.usual).run? (asking ++ [.input .refresh, .close])).map (fun s =>
      (s.isOpen, s.waiting, s.routePlaces, s.sent[0]?)) =
        some (false, [1, 2], [1, 2], some .fetchInfo) := by decide +kernel
  obtain ⟨t, hRun, ht⟩ := Option.map_eq_some_iff.mp hWaits
  simp only [Prod.mk.injEq] at ht
  obtain ⟨hOpen, hWaiting, hRoutes, hInfo⟩ := ht
  obtain ⟨r₁, h₁⟩ := mem_routePlaces.mp (show 1 ∈ t.routePlaces by simp [hRoutes])
  obtain ⟨r₂, h₂⟩ := mem_routePlaces.mp (show 2 ∈ t.routePlaces by simp [hRoutes])
  obtain ⟨p₂, hAnswered⟩ := run_answer hRun (by simp [hWaiting]) h₂ oneWay
  obtain ⟨p₁, hEnd⟩ := run_answer hAnswered (by simp [hWaiting]) h₁ oneWay
  refine ⟨_, hEnd, ?_, by simp [isOver, hOpen, hWaiting]⟩
  intro place a ha
  simp only [early, asking, List.cons_append, List.nil_append, List.mem_cons, Step.answer.injEq,
    reduceCtorEq, List.not_mem_nil, or_false, false_or] at ha
  rcases ha with ⟨rfl, rfl⟩ | ⟨rfl, rfl⟩ | ⟨rfl, rfl⟩
  · exact congrArg (Option.map _) hInfo
  · exact congrArg (Option.map _) h₂
  · exact congrArg (Option.map _) h₁

theorem run_late : ∃ s, (opened Planner.usual).run? late = some s ∧
    AnsweredBy usualRoutes late s ∧ s.isOver := by
  have hWaits : ((opened Planner.usual).run? (late.take 4)).map (fun s =>
      (s.isOpen, s.waiting, s.routePlaces, s.sent[0]?)) =
        some (false, [1], [1], some .fetchInfo) := by decide +kernel
  obtain ⟨t, hRun, ht⟩ := Option.map_eq_some_iff.mp hWaits
  simp only [Prod.mk.injEq] at ht
  obtain ⟨hOpen, hWaiting, hRoutes, hInfo⟩ := ht
  obtain ⟨r, h⟩ := mem_routePlaces.mp (show 1 ∈ t.routePlaces by simp [hRoutes])
  obtain ⟨p, hEnd⟩ := run_answer hRun (by simp [hWaiting]) h oneWay
  refine ⟨_, hEnd, ?_, by simp [isOver, hOpen, hWaiting]⟩
  intro place a ha
  simp only [late, List.cons_append, List.nil_append, List.mem_cons,
    Step.answer.injEq, reduceCtorEq, List.not_mem_nil, or_false, false_or] at ha
  rcases ha with ⟨rfl, rfl⟩ | ⟨rfl, rfl⟩
  · exact congrArg (Option.map _) hInfo
  · exact congrArg (Option.map _) h

/-- Early and late answers leave the usual session over with the same planner, and it has the way
to go. -/
theorem outcome_eq_usual : ∃ s s', (opened Planner.usual).run? early = some s ∧
    (opened Planner.usual).run? late = some s' ∧ s.planner = s'.planner ∧
      s.planner.results.progress = .succeeded ∧
      s.planner.results.paths.map Results.unpicked = [.plain true] := by
  obtain ⟨s, hRun, hServer, hOver⟩ := run_early
  obtain ⟨s', hRun', hServer', hOver'⟩ := run_late
  have hSteady : ∀ i ∈ inputs early, i.Steady := by
    have hInputs : inputs early = [.edit Planner.usualTrip, .refresh] := rfl
    rw [hInputs]
    exact List.forall_mem_cons.mpr ⟨⟨nofun, nofun⟩, List.forall_mem_singleton.mpr trivial⟩
  have hComplete : s.planner.query.isComplete = true :=
    (congrArg (·.query.isComplete) (bare_run hRun)).trans (by decide +kernel)
  obtain ⟨hSame, hShown⟩ := outcome_eq Planner.start_usual usualRoutes hRun hRun' rfl hSteady
    hServer hServer' hOver hOver'
  obtain ⟨r, -, -, hFound, -⟩ := hShown rfl hComplete
  obtain ⟨hSucceeded, hPaths⟩ := hFound [.plain true] rfl
  exact ⟨s, s', hRun, hRun', hSame, hSucceeded, hPaths⟩

end Session

end TripPlanner
