import TripPlanner.Proofs.Session.Stranding

/-!
# How settled results are

Once an answer to a request counts, the results are settled: until a request is sent, they stay as
they are, up to the pick, except that copies of the request which are still waiting may be answered
too. A request is known by its URL alone, so each of these answers counts as the first one did, and
takes its place (`settled_until_sent`). Even a failure takes the place of a success in this way
(`replaced_usual`).

* `Commits`: an answer counts.
* `Settled`: what is so of the results from then on, as long as nothing is sent.
-/

namespace TripPlanner

/-- The same results up to the pick. -/
structure Results.Alike (r r' : Results) : Prop where
  request : r'.request = r.request
  progress : r'.progress = r.progress
  paths : r'.paths.map Results.unpicked = r.paths.map Results.unpicked

theorem Results.Alike.refl (r : Results) : r.Alike r := ⟨rfl, rfl, rfl⟩

theorem Results.Alike.trans {r₁ r₂ r₃ : Results} (h : r₁.Alike r₂) (h' : r₂.Alike r₃) :
    r₁.Alike r₃ :=
  ⟨h'.request.trans h.request, h'.progress.trans h.progress, h'.paths.trans h.paths⟩

theorem SelectionRule.alike_pick {rule : SelectionRule} {r r' : Results} {index : Nat}
    (h : rule.pick r index = .ok r') : r.Alike r' := by
  obtain ⟨-, hRequest, hProgress, hPaths⟩ := pick_eq_ok h
  exact ⟨hRequest, hProgress, hPaths⟩

namespace Session

/-- Where a request has been sent, the server has described itself. -/
theorem info_of_sent {p : Planner} {steps : List Step} {s : Session} {r : String}
    (hRun : (opened p).run? steps = some s) (hSent : .fetchRoutes r ∈ s.sent) :
    s.planner.info.isSome := by
  refine run_induction (P := fun _ t => ∀ r, .fetchRoutes r ∈ t.sent → t.planner.info.isSome)
    ?_ ?_ hRun r hSent
  · intro r h
    simp [opened, start, handle, carryOut, of, Planner.update] at h
  · intro steps t x t' _ ih hMoves r h
    have hOld : ∀ u : Session, u.sent = t.sent → .fetchRoutes r ∈ u.sent →
        t'.planner.info.isSome := by
      intro u hSame hThere
      exact info_step hMoves (ih r (hSame ▸ hThere))
    cases course_of_moves hMoves with
    | calm _ _ hCalm =>
      rcases hCalm with hCalm | hCalm
      · exact hOld t' hCalm h
      · rw [hCalm] at h
        exact hOld t rfl (by simpa using h)
    | picks _ _ _ hSame => exact hOld t' hSame h
    | sends _ hInfo _ _ _ => exact hInfo
    | settles _ _ _ _ _ _ _ hAfter => exact hOld t' (by rw [hAfter]; rfl) h
    | drops _ _ _ _ _ _ _ hAfter => exact hOld t' (by rw [hAfter]; rfl) h

/-- By the step from `s` to `t` an answer to the request `r` arrives that counts. -/
def Commits (s : Session) (r : String) (t : Session) : Prop :=
  ∃ place a, s.sent[place]? = some (.fetchRoutes r) ∧ s.planner.request = some r ∧
    Moves s (.answer place (.routes a)) t

theorem Commits.results {s t : Session} {r : String} (h : Commits s r t) :
    ∃ a, t.planner.results = Requests.settle r a ∧ t.sent = s.sent := by
  obtain ⟨place, a, hPlace, hRequest, hMoves⟩ := h
  cases hMoves with
  | routes _ r' _ _ hPlace' =>
    obtain rfl : r' = r := by simpa [hPlace] using hPlace'.symm
    rw [Planner.update_routes_of_eq hRequest, carryOut_nothing]
    exact ⟨a, rfl, rfl⟩

/-- Since an answer to the request `r` counted in `t`, no request has been sent; and the results
are those of `t` up to the pick as long as no copy of the request has been served. -/
structure Settled (t : Session) (r : String) (after : List Step) (s : Session) : Prop where
  info : s.planner.info.isSome
  request : s.planner.results.request = some r
  progress : s.planner.results.progress = .succeeded ∨ s.planner.results.progress = .failed
  alike : (∀ place, t.Copy r place → ¬ t.Happens after (Serves place)) →
    t.planner.results.Alike s.planner.results

theorem settled_step {t s s' : Session} {r : String} {after : List Step} {x : Step}
    (hTidy : t.Tidy) (hRun : t.run? after = some s) (hAgreed : s.planner.Agreed)
    (h : Settled t r after s) (hMoves : Moves s x s') (hLast : s.routeRequests = t.routeRequests)
    (hSame : s'.routeRequests = s.routeRequests) : Settled t r (after ++ [x]) s' := by
  have hBefore : (∀ place, t.Copy r place → ¬ t.Happens (after ++ [x]) (Serves place)) →
      t.planner.results.Alike s.planner.results := fun hNever =>
    h.alike fun place hCopy hServed =>
      hNever place hCopy ((happens_concat_iff hRun).mpr (Or.inl hServed))
  have hInfo := info_step hMoves h.info
  cases aftermath_of_moves hTidy hRun hAgreed h.info h.request hMoves hLast hSame with
  | kept _ hResults =>
    rw [← hResults] at hBefore
    exact ⟨hInfo, hResults ▸ h.request, hResults ▸ h.progress, hBefore⟩
  | picked index _ hPick =>
    have hAlike := SelectionRule.alike_pick hPick
    exact ⟨hInfo, hAlike.request.trans h.request, hAlike.progress ▸ h.progress,
      fun hNever => (hBefore hNever).trans hAlike⟩
  | served place a hStep hCopy hRequest hResults =>
    have hServes : Serves place s x := ⟨⟨_, hStep⟩, Planner.isComplete_of_request hRequest⟩
    refine ⟨hInfo, by simp [hResults], hResults ▸ Requests.settle_progress r a, fun hNever => ?_⟩
    exact absurd ((happens_concat_iff hRun).mpr (Or.inr hServes)) (hNever place hCopy)

theorem settled_run {t s : Session} {r : String} {after : List Step} (hTidy : t.Tidy)
    (hAgreed : t.planner.Agreed) (hStart : Settled t r [] t) (hRun : t.run? after = some s)
    (hLast : s.routeRequests = t.routeRequests) : Settled t r after s := by
  refine run_induction
    (P := fun after s => s.routeRequests = t.routeRequests → Settled t r after s)
    (fun _ => hStart) ?_ hRun hLast
  intro after u x u' hBefore ih hMoves hLast'
  have hSame := routeRequests_same hBefore hMoves hLast'
  have hLast := hSame.symm.trans hLast'
  exact settled_step hTidy hBefore (agreed_run hBefore hAgreed) (ih hLast) hMoves hLast hSame

/-- **How settled results are.** From the moment on at which an answer to a request counts, until a
request is sent, the results are those of this request, and it is not on its way. A step in that
time leaves them as they are, unless the user picks an itinerary, or it answers a copy of the same
request that has waited since before that moment while the query makes the request; that answer
counts as well. What the user does changes nothing but the pick. As long as no copy has been
answered so, the results are the same up to the pick. -/
theorem settled_until_sent {c : Configuration} {location : Url} {now : Instant} {p : Planner}
    (hStart : Planner.start c location now = .ok p) {before after : List Step} {s t u : Session}
    {r : String} (hBefore : (opened p).run? before = some s) (hCommits : Commits s r t)
    (hAfter : t.run? after = some u) (hLast : u.routeRequests = t.routeRequests) :
    u.planner.results.request = some r ∧
      (u.planner.results.progress = .succeeded ∨ u.planner.results.progress = .failed) ∧
      (∀ x u', Moves u x u' → u'.routeRequests = u.routeRequests →
        Aftermath t r u x u' ∧
          ∀ i, x = .input i → u.planner.results.Alike u'.planner.results) ∧
      ((∀ place, t.Copy r place → ¬ t.Happens after (Serves place)) →
        t.planner.results.Alike u.planner.results) := by
  obtain ⟨a, hResults, hSent⟩ := hCommits.results
  obtain ⟨place, b, hPlace, -, hMoves⟩ := hCommits
  have hRun := run?_concat_eq_some_iff.mpr ⟨s, hBefore, hMoves⟩
  have hTidy := tidy_run (tidy_opened p) hRun
  have hAgreed := agreed_run hRun (agreed_opened (Planner.agreed_start hStart))
  have hInfo := info_of_sent hRun (List.mem_of_getElem? (hSent.symm ▸ hPlace))
  have hBegin : Settled t r [] t :=
    ⟨hInfo, by simp [hResults], hResults ▸ Requests.settle_progress r a, fun _ => .refl _⟩
  have h := settled_run hTidy hAgreed hBegin hAfter hLast
  refine ⟨h.request, h.progress, fun x u' hNext hQuiet => ?_, h.alike⟩
  have hAftermath := aftermath_of_moves hTidy hAfter (agreed_run hAfter hAgreed) h.info h.request
    hNext hLast hQuiet
  refine ⟨hAftermath, ?_⟩
  rintro i rfl
  cases hAftermath with
  | kept _ hKept =>
    rw [hKept]
    exact .refl _
  | picked _ _ hPick => exact SelectionRule.alike_pick hPick
  | served _ _ hStep _ _ _ => cases hStep

/-! ## Leftover answers -/

/-- Whenever a request waits that the query makes, it can be sent again; and once the new copy has
been answered, the answer to the old one takes the place of the results. -/
theorem run_leftover {s : Session} {place : Nat} {r : String} (hTidy : s.Tidy) (hOpen : s.isOpen)
    (hInfo : s.planner.info.isSome) (hRequest : s.planner.request = some r)
    (hWaits : place ∈ s.waiting) (hPlace : s.sent[place]? = some (.fetchRoutes r))
    (a b : RoutesAnswer) :
    ∃ s₁ t u, Moves s (.input .refresh) s₁ ∧ s₁.sent = s.sent ++ [.fetchRoutes r] ∧
      Commits s₁ r t ∧ Moves s₁ (.answer s.sent.length (.routes a)) t ∧
      t.planner.results = Requests.settle r a ∧
      Moves t (.answer place (.routes b)) u ∧ u.sent = t.sent ∧
      u.planner.results = Requests.settle r b := by
  have hLt := hTidy.lt place hWaits
  -- The request is sent again and waits at two places.
  have hMoves₁ := Moves.input .refresh hOpen
  rw [show Input.event .refresh = .refresh from rfl, Planner.update_refresh hInfo hRequest]
    at hMoves₁
  generalize hs₁ : s.carryOut _ = s₁ at hMoves₁
  have hSent₁ : s₁.sent = s.sent ++ [.fetchRoutes r] := by rw [← hs₁]; rfl
  have hWaiting₁ : s₁.waiting = s.waiting ++ [s.sent.length] := by rw [← hs₁]; rfl
  have hRequest₁ : s₁.planner.request = some r := by rw [← hs₁]; exact hRequest
  -- The new copy is answered.
  have hNew : s₁.sent[s.sent.length]? = some (.fetchRoutes r) := by simp [hSent₁]
  have hMoves₂ := Moves.routes s.sent.length r a (by simp [hWaiting₁]) hNew
  have hCommits : Commits s₁ r _ := ⟨_, a, hNew, hRequest₁, hMoves₂⟩
  rw [Planner.update_routes_of_eq hRequest₁, carryOut_nothing] at hMoves₂ hCommits
  generalize ht : (s₁.received s.sent.length).withPlanner _ = t at hMoves₂ hCommits
  have hOld : t.sent[place]? = some (.fetchRoutes r) := by
    rw [← ht, withPlanner_sent, received_sent, hSent₁, List.getElem?_append_left hLt]
    exact hPlace
  have hStill : place ∈ t.waiting := by
    rw [← ht, withPlanner_waiting, received_waiting, hWaiting₁]
    exact (List.mem_erase_of_ne (Nat.ne_of_lt hLt)).mpr (List.mem_append_left _ hWaits)
  -- The old copy is answered.
  have hMoves₃ := Moves.routes place r b hStill hOld
  have hRequest₂ : t.planner.request = some r := by rw [← ht]; exact hRequest₁
  rw [Planner.update_routes_of_eq hRequest₂, carryOut_nothing] at hMoves₃
  refine ⟨s₁, t, _, hMoves₁, hSent₁, hCommits, hMoves₂, by rw [← ht]; rfl, hMoves₃, rfl, rfl⟩

/-- The usual trip is requested twice, and the second request brings an itinerary. -/
def answered : List Step :=
  asking ++ [.input .refresh] ++ [.answer 2 (.routes (.ok [.plain true]))]

theorem run_answered : ∃ s t u r,
    (opened Planner.usual).run? (asking ++ [.input .refresh]) = some s ∧
    Commits s r t ∧ (opened Planner.usual).run? answered = some t ∧ t.isOpen ∧
    t.planner.results = Requests.settle r (.ok [.plain true]) ∧
    Moves t (.answer 1 (.routes (.error (.status r 500)))) u ∧ u.sent = t.sent ∧
    u.planner.results = Requests.settle r (.error (.status r 500)) := by
  obtain ⟨s, r, hAsking, hOpen, hWaiting, hSent, hInfo, hRequest, -, -, -⟩ := run_asking
  have hWaits : 1 ∈ s.waiting := by simp [hWaiting]
  obtain ⟨s₁, t, u, hMoves₁, -, hCommits, hMoves₂, hResults, hMoves₃, hSame, hReplaced⟩ :=
    run_leftover (tidy_run (tidy_opened _) hAsking) hOpen hInfo hRequest hWaits (by simp [hSent])
      (.ok [.plain true]) (.error (.status r 500))
  have hRun₁ := run?_concat_eq_some_iff.mpr ⟨s, hAsking, hMoves₁⟩
  have hLength : s.sent.length = 2 := by simp [hSent]
  rw [hLength] at hMoves₂
  have hRun₂ := run?_concat_eq_some_iff.mpr ⟨s₁, hRun₁, hMoves₂⟩
  have hStillOpen : t.isOpen := by
    cases hMoves₁
    cases hMoves₂
    exact hOpen
  exact ⟨s₁, t, u, r, hRun₁, hCommits, hRun₂, hStillOpen, hResults, hMoves₃, hSame, hReplaced⟩

/-- The usual user picks an itinerary once routes have come, and the results stay the same but for
the pick. -/
theorem settled_usual : ∃ r t u, (opened Planner.usual).run? answered = some t ∧
    t.run? [.input (.select 0)] = some u ∧ u.planner.results.request = some r ∧
    t.planner.results.Alike u.planner.results := by
  obtain ⟨s, t, -, r, hBefore, hCommits, hRun, hOpen, -, -, -, -⟩ := run_answered
  have hMoves := Moves.input (.select 0) hOpen
  have hAfter : t.run? ([] ++ [.input (.select 0)]) = some _ :=
    run?_concat_eq_some_iff.mpr ⟨t, rfl, hMoves⟩
  have hLast : (t.carryOut (t.planner.update (.select 0))).routeRequests = t.routeRequests := by
    simp [routeRequests, carryOut, Planner.effects_select]
  obtain ⟨hRequest, -, -, hAlike⟩ :=
    settled_until_sent Planner.start_usual hBefore hCommits hAfter hLast
  refine ⟨r, t, _, hRun, hAfter, hRequest, hAlike fun place _ hServed => ?_⟩
  rcases (happens_concat_iff rfl).mp hServed with hServed | ⟨⟨a, hStep⟩, -⟩
  · exact happens_nil _ _ hServed
  · cases hStep

/-- The usual trip is requested twice. The second request brings an itinerary; then the first one
fails, and although nothing has been sent in between, the failure takes the place of the success. -/
theorem replaced_usual : ∃ t u r,
    Planner.start {} Planner.usualPage Planner.newYear = .ok Planner.usual ∧
      (opened Planner.usual).run? answered = some t ∧
      t.planner.results.progress = .succeeded ∧
      Moves t (.answer 1 (.routes (.error (.status r 500)))) u ∧ u.sent = t.sent ∧
      u.planner.results.progress = .failed ∧ u.planner.results.paths = [] := by
  obtain ⟨-, t, u, r, -, -, hRun, -, hResults, hMoves, hSame, hReplaced⟩ := run_answered
  exact ⟨t, u, r, Planner.start_usual, hRun, by rw [hResults]; rfl, hMoves, hSame,
    by rw [hReplaced]; rfl, by rw [hReplaced]; rfl⟩

end Session

end TripPlanner
