import TripPlanner.Proofs.Session.Stranding
import Mathlib.Data.List.TFAE

/-!
# What lets requests out

Until the server has described itself, whatever the user does sends no request for routes and
touches no results; and neither does a query that is not complete. The gate opens exactly when both
obstacles are away at the same time for the first time (`Ready`), and from then on it stays open:
there always is a latest request, whatever becomes of the query (`Gate`, `gate_run`).

* `Described`: an answer arrives in which the server describes itself.
* `gating`: the ways to tell whether the gate has opened, all of them equivalent.
-/

namespace TripPlanner.Session

/-- The server has described itself and the query is complete. -/
def Ready (s : Session) : Prop := s.planner.info.isSome ∧ s.planner.query.isComplete

/-- An answer arrives in which the server describes itself. -/
def Described (s : Session) (x : Step) : Prop :=
  ∃ place description, x = .answer place (.info (.ok description)) ∧
    s.sent[place]? = some .fetchInfo

/-! ## Requests -/

theorem mem_routeRequests {s : Session} {r : String} {place : Nat}
    (h : s.sent[place]? = some (.fetchRoutes r)) : r ∈ s.routeRequests :=
  List.mem_filterMap.mpr ⟨_, List.mem_of_getElem? h, rfl⟩

/-- A ready session has a latest request. -/
theorem Ready.request {s : Session} (h : s.Ready) (hAgreed : s.planner.Agreed) :
    s.planner.results.request.isSome := by
  obtain ⟨r, hRequest⟩ := Planner.exists_request h.2
  simp [hAgreed h.1 h.2, hRequest]

/-- The gate, given whether the session has ever been ready: nothing has come through, or something
has, and then the results say so. -/
inductive Gate (s : Session) (visited : Prop) : Prop
  | shut (hNever : ¬ visited) (hResults : s.planner.results = .idle)
      (hRequests : s.routeRequests = [])
  | opened (hVisited : visited) (hProgress : s.planner.results.progress ≠ .idle)
      (hRequest : s.planner.results.request.isSome) (hRequests : s.routeRequests ≠ [])

theorem gate_opened {p : Planner} (hInert : p.info = none) (hIdle : p.results = .idle) :
    Gate (opened p) ((opened p).Visits [] Ready) := by
  refine .shut ?_ hIdle rfl
  rw [visits_nil_iff]
  rintro ⟨hInfo, -⟩
  have hNone : (opened p).planner.info = none := hInert
  simp [hNone] at hInfo

/-- A gate that has opened stays open. -/
theorem gate_step_of_opened {s s' : Session} {x : Step} {visited : Prop} (hMoves : Moves s x s')
    (hVisited : visited) (hProgress : s.planner.results.progress ≠ .idle)
    (hRequest : s.planner.results.request.isSome) (hRequests : s.routeRequests ≠ []) :
    Gate s' visited := by
  have hAfter : s'.routeRequests ≠ [] := by
    rcases routeRequests_step hMoves with hSame | ⟨r, hSent⟩
    · rwa [hSame]
    · simp [routeRequests_of_sent hSent]
  cases course_of_moves hMoves with
  | calm _ hResults _ => exact .opened hVisited (hResults ▸ hProgress) (hResults ▸ hRequest) hAfter
  | picks _ _ hPick _ =>
    obtain ⟨-, hSameRequest, hSameProgress, -⟩ := SelectionRule.pick_eq_ok hPick
    exact .opened hVisited (hSameProgress ▸ hProgress) (hSameRequest ▸ hRequest) hAfter
  | sends r _ _ hResults _ =>
    exact .opened hVisited (by simp [hResults]) (by simp [hResults]) hAfter
  | settles _ r a _ _ _ _ hAfter' =>
    subst hAfter'
    exact .opened hVisited (Requests.settle_progress_ne_idle r a) (by simp) hAfter
  | drops _ _ _ _ _ _ _ hAfter' =>
    subst hAfter'
    exact .opened hVisited hProgress hRequest hAfter

/-- A gate that is shut lets nothing out until the session is ready, and then it opens. -/
theorem gate_step_of_shut {s s' : Session} {x : Step} {visited : Prop} (hMoves : Moves s x s')
    (hAgreed : s'.planner.Agreed) (hNever : ¬ visited) (hResults : s.planner.results = .idle)
    (hRequests : s.routeRequests = []) : Gate s' (visited ∨ s'.Ready) := by
  have hUnasked : ∀ (place : Nat) r, s.sent[place]? ≠ some (.fetchRoutes r) := by
    intro place r hPlace
    have hMem := mem_routeRequests hPlace
    simp [hRequests] at hMem
  cases course_of_moves hMoves with
  | calm _ hSame hSent =>
    have hIdle : s'.planner.results = .idle := hSame.trans hResults
    refine .shut ?_ hIdle ((routeRequests_of_calm hSent).trans hRequests)
    rintro (hVisited | hReady)
    · exact hNever hVisited
    · have hSome := hReady.request hAgreed
      rw [hIdle] at hSome
      cases hSome
  | picks _ _ hPick _ =>
    -- There are no itineraries to pick from.
    have hIndex := (SelectionRule.pick_eq_ok hPick).1
    rw [hResults] at hIndex
    cases hIndex
  | sends r hInfo hRequest hSent hAfter =>
    refine .opened (Or.inr ⟨hInfo, Planner.isComplete_of_request hRequest⟩) ?_ ?_ ?_
    · simp [hSent]
    · simp [hSent]
    · simp [routeRequests_of_sent hAfter]
  | settles place r _ _ _ hPlace _ _ => exact absurd hPlace (hUnasked place r)
  | drops place r _ _ _ hPlace _ _ => exact absurd hPlace (hUnasked place r)

theorem gate_run {c : Configuration} {location : Url} {now : Instant} {p : Planner}
    (hStart : Planner.start c location now = .ok p) {steps : List Step} {s : Session}
    (hRun : (opened p).run? steps = some s) : Gate s ((opened p).Visits steps Ready) := by
  obtain ⟨hInert, hIdle⟩ := Planner.start_inert hStart
  have hAgreed := agreed_opened (Planner.agreed_start hStart)
  refine run_induction (P := fun steps t => Gate t ((opened p).Visits steps Ready))
    (gate_opened hInert hIdle) ?_ hRun
  intro steps t x t' hBefore ih hMoves
  have hRun' := run?_concat_eq_some_iff.mpr ⟨t, hBefore, hMoves⟩
  rw [visits_concat_iff hRun']
  cases ih with
  | shut hNever hResults hRequests =>
    exact gate_step_of_shut hMoves (agreed_run hRun' hAgreed) hNever hResults hRequests
  | opened hVisited hProgress hRequest hRequests =>
    exact gate_step_of_opened hMoves (Or.inl hVisited) hProgress hRequest hRequests

/-! ## The server's description -/

theorem info_step_iff {s s' : Session} {x : Step} (hMoves : Moves s x s') :
    s'.planner.info.isSome ↔ s.planner.info.isSome ∨ Described s x := by
  cases hMoves with
  | input i hOpen =>
    have hSame : i.event.onInfo s.planner.info = s.planner.info := by cases i <;> rfl
    simp [carryOut, Planner.update_info, hSame, Described]
  | info place a hWaits hSent =>
    cases a with
    | error fault => simp [carryOut, Planner.update_info, Event.onInfo, Described]
    | ok description => simp [carryOut, Planner.update_info, Event.onInfo, Described, hSent]
  | routes place r a hWaits hSent =>
    simp [carryOut, Planner.update_info, Event.onInfo, Described]
  | close hOpen => simp [close, Described]

/-- What the server says about itself is known exactly if it has said so. -/
theorem info_run_iff {s s' : Session} {steps : List Step} (hInert : s.planner.info = none)
    (hRun : s.run? steps = some s') :
    s'.planner.info.isSome ↔ s.Happens steps Described := by
  refine run_induction (P := fun steps t => t.planner.info.isSome ↔ s.Happens steps Described)
    (by simp [hInert]) ?_ hRun
  intro steps t x t' hBefore ih hMoves
  rw [info_step_iff hMoves, ih, happens_concat_iff hBefore]

/-- **What lets requests out.** In every session that can be reached it is all the same whether
nothing has been requested yet according to the results, there is no latest request, no request for
routes has been sent, or the session has never been ready. And nothing is shown exactly as long as
the server has not described itself. -/
theorem gating {c : Configuration} {location : Url} {now : Instant} {p : Planner}
    (hStart : Planner.start c location now = .ok p) {steps : List Step} {s : Session}
    (hRun : (opened p).run? steps = some s) :
    [s.planner.results.progress = .idle, s.planner.results.request = none,
        s.routeRequests = [], ¬ (opened p).Visits steps Ready].TFAE ∧
      (s.planner.view = none ↔ ¬ (opened p).Happens steps Described) := by
  constructor
  · refine List.tfae_of_forall (¬ (opened p).Visits steps Ready) _ ?_
    simp only [List.forall_mem_cons, List.not_mem_nil, false_implies, implies_true, and_true,
      iff_self]
    cases gate_run hStart hRun with
    | shut hNever hResults hRequests =>
      exact ⟨iff_of_true (by rw [hResults]; rfl) hNever, iff_of_true (by rw [hResults]; rfl) hNever,
        iff_of_true hRequests hNever⟩
    | opened hVisited hProgress hRequest hRequests =>
      have hOpen : ¬ ¬ (opened p).Visits steps Ready := not_not.mpr hVisited
      exact ⟨iff_of_false hProgress hOpen,
        iff_of_false (Option.isSome_iff_ne_none.mp hRequest) hOpen, iff_of_false hRequests hOpen⟩
  · have hInert : (opened p).planner.info = none := (Planner.start_inert hStart).1
    rw [← info_run_iff hInert hRun]
    simp [Planner.view]

/-- The usual session asks for routes, so it has been ready, and the server has described itself. -/
theorem gating_usual : ∃ s, (opened Planner.usual).run? asking = some s ∧
    s.routeRequests ≠ [] ∧ (opened Planner.usual).Visits asking Ready ∧
    (opened Planner.usual).Happens asking Described := by
  obtain ⟨s, r, hRun, -, -, hSent, hInfo, -, -, -, -⟩ := run_asking
  obtain ⟨hGate, hView⟩ := gating Planner.start_usual hRun
  have hRequests : s.routeRequests ≠ [] := by simp [routeRequests, hSent]
  refine ⟨s, hRun, hRequests, ?_, ?_⟩
  · by_contra hNever
    exact hRequests ((hGate.out 3 2).mp hNever)
  · by_contra hNever
    have hNothing := hView.mpr hNever
    rw [Planner.view, Option.map_eq_none_iff] at hNothing
    simp [hNothing] at hInfo

end TripPlanner.Session
