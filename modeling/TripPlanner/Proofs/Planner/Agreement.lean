import TripPlanner.Proofs.Link.Base
import TripPlanner.Proofs.Planner.Events
import TripPlanner.Proofs.Planner.Start
import TripPlanner.Proofs.Results.Paths

/-!
# Query, address bar and request agree

Three invariants of the planner, each kept by every event:

* `Anchored`: whatever the address bar shows, a link put on it is a link put on the location at
  which the planner was started.
* `Shown`: the address bar shows the link of the query. It holds from the first mount on.
* `Agreed`: unless the planner is inert, a complete query is the latest one sent. While a query is
  not complete the latest request may be another one; no event that makes it complete leaves
  without sending.

Together they say that query, address bar and request are three writings of one thing
(`agreement`).
-/

namespace TripPlanner

namespace AddressBar

theorem sync_location (bar : AddressBar) (f : LinkFormat) (q : Query) :
    (bar.sync f q).location = f.link bar.location q := by
  simp only [sync]
  split
  · rename_i hSame
    exact hSame.symm
  · rfl

/-- The address bar is overwritten, once, exactly if it shows another link. -/
theorem sync_replaced (bar : AddressBar) (f : LinkFormat) (q : Query) :
    (bar.sync f q).replaced =
      bar.replaced + if f.link bar.location q = bar.location then 0 else 1 := by
  simp only [sync]
  split <;> rfl

end AddressBar

namespace Planner

/-! ## The address bar -/

/-- A link put on what the address bar shows is a link put on the location. -/
def Anchored (location : Url) (p : Planner) : Prop :=
  ∀ q, p.requests.format.link p.bar.location q = p.requests.format.link location q

/-- The address bar shows the link of the query. -/
def Shown (p : Planner) : Prop :=
  p.requests.format.link p.bar.location p.query = p.bar.location

theorem anchored_update {location : Url} {p : Planner} (h : p.Anchored location) (e : Event) :
    (p.update e).planner.Anchored location := by
  intro q
  rw [update_requests, update_bar]
  cases e with
  | mount =>
    simp only [Event.onBar, AddressBar.sync_location, LinkFormat.link_link]
    exact h q
  | edit e =>
    simp only [Event.onBar]
    split
    · rw [AddressBar.sync_location, LinkFormat.link_link]
      exact h q
    · exact h q
  | select index => exact h q
  | refresh => exact h q
  | info answer => exact h q
  | routes r a => exact h q

theorem shown_mount (p : Planner) : (p.update .mount).planner.Shown := by
  unfold Shown
  rw [update_requests, update_bar, update_query]
  simp only [Event.onBar, Event.onQuery, AddressBar.sync_location, LinkFormat.link_link]

theorem shown_update {p : Planner} (h : p.Shown) (e : Event) : (p.update e).planner.Shown := by
  unfold Shown
  rw [update_requests, update_bar, update_query]
  cases e with
  | mount => simp only [Event.onBar, Event.onQuery, AddressBar.sync_location, LinkFormat.link_link]
  | edit e =>
    simp only [Event.onBar, Event.onQuery]
    cases hAny : (p.query.apply e).2.any with
    | true => simp only [if_true, AddressBar.sync_location, LinkFormat.link_link]
    | false =>
      rw [Query.apply_of_not_any hAny]
      exact h
  | select index => exact h
  | refresh => exact h
  | info answer => exact h
  | routes r a => exact h

theorem sync_of_shown {p : Planner} (h : p.Shown) : p.sync = p := by
  have hBar : p.bar.sync p.requests.format p.query = p.bar := if_pos h
  rw [sync, hBar]

/-- An event overwrites the address bar, once, exactly if the link of the query after it is not
the one shown before. -/
theorem replaced_update {p : Planner} {e : Event} (h : e = .mount ∨ p.Shown) :
    (p.update e).planner.bar.replaced =
      p.bar.replaced +
        if p.requests.format.link p.bar.location (p.update e).planner.query = p.bar.location
        then 0 else 1 := by
  rw [update_bar, update_query]
  rcases h with rfl | hShown
  · exact AddressBar.sync_replaced _ _ _
  · have hSame : p.requests.format.link p.bar.location p.query = p.bar.location := hShown
    cases e with
    | mount => exact AddressBar.sync_replaced _ _ _
    | edit e =>
      simp only [Event.onBar, Event.onQuery]
      cases hAny : (p.query.apply e).2.any with
      | true => exact AddressBar.sync_replaced _ _ _
      | false => simp [Query.apply_of_not_any hAny, hSame]
    | select index => simp [Event.onBar, Event.onQuery, hSame]
    | refresh => simp [Event.onBar, Event.onQuery, hSame]
    | info answer => simp [Event.onBar, Event.onQuery, hSame]
    | routes r a => simp [Event.onBar, Event.onQuery, hSame]

/-! ## The request -/

/-- Unless the planner is inert, a complete query is the latest one sent. -/
def Agreed (p : Planner) : Prop :=
  p.info.isSome → p.query.isComplete → p.results.request = p.request

/-- Whatever was sent before, sending leaves a complete query the latest one sent. -/
theorem agreed_send (p : Planner) (again : Bool) : (p.send again).1.Agreed := by
  intro hInfo hComplete
  rcases send_cases p again with ⟨hSend, hWhy⟩ | ⟨r, -, hRequest, hSend⟩
  · rw [hSend] at hInfo hComplete ⊢
    rcases hWhy with hInert | hNone | ⟨-, hSent⟩
    · simp [hInert] at hInfo
    · simp [request_eq_none_iff.mp hNone] at hComplete
    · exact hSent
  · rw [hSend]
    exact hRequest.symm

/-- Where they agree there is nothing to send, unless it is to be sent again. -/
theorem send_of_agreed {p : Planner} (h : p.Agreed) : p.send false = (p, []) := by
  by_cases hInfo : p.info.isSome
  · by_cases hComplete : p.query.isComplete
    · exact send_quiet (Or.inr ⟨rfl, h hInfo hComplete⟩)
    · exact send_quiet (Or.inl (request_eq_none_iff.mpr (by simpa using hComplete)))
  · exact send_of_inert (by simpa using hInfo) false

/-- A server that has described itself may do so again; that sends nothing. -/
theorem effects_info_of_known {p : Planner} (h : p.Agreed) (hInfo : p.info.isSome)
    (answer : InfoAnswer) : (p.update (.info answer)).effects = [] := by
  cases answer with
  | error fault => rfl
  | ok description =>
    have hAgreed : ({ p with info := some description } : Planner).Agreed := fun _ => h hInfo
    change (({ p with info := some description } : Planner).send false).2 = []
    rw [send_of_agreed hAgreed]

theorem agreed_update {p : Planner} (h : p.Agreed) (e : Event) : (p.update e).planner.Agreed := by
  cases e with
  | mount => exact h
  | edit e =>
    cases hAny : (p.query.apply e).2.any with
    | true =>
      change (p.edit e).planner.Agreed
      rw [(edit_of_any hAny).1]
      exact agreed_send _ _
    | false =>
      change (p.edit e).planner.Agreed
      rw [edit_of_not_any hAny]
      exact h
  | select index =>
    cases hSelect : p.select index with
    | error failure =>
      simp only [update, hSelect]
      exact h
    | ok p' =>
      obtain ⟨results, hPick, rfl⟩ := select_eq_ok hSelect
      simp only [update, hSelect]
      intro hInfo hComplete
      exact (SelectionRule.pick_eq_ok hPick).2.1.trans (h hInfo hComplete)
  | refresh => exact agreed_send p true
  | info answer =>
    cases answer with
    | error fault => exact h
    | ok description => exact agreed_send { p with info := some description } false
  | routes r a =>
    by_cases hRequest : p.request = some r
    · rw [update_routes_of_eq hRequest]
      intro _ _
      exact (Requests.settle_request r a).trans hRequest.symm
    · rw [update_routes_of_ne hRequest]
      exact h

/-! ## Runs -/

theorem start_requests {c : Configuration} {location : Url} {now : Instant} {p : Planner}
    (hStart : start c location now = .ok p) :
    ∃ place, c.routePlace = .ok place ∧ p.requests = ⟨c.linkFormat, place, c.keepsPaths⟩ := by
  obtain ⟨place, hPlace, rfl⟩ := start_eq_ok hStart
  exact ⟨place, hPlace, rfl⟩

theorem anchored_start {c : Configuration} {location : Url} {now : Instant} {p : Planner}
    (hStart : start c location now = .ok p) : p.Anchored location := by
  obtain ⟨place, -, rfl⟩ := start_eq_ok hStart
  exact fun _ => rfl

theorem agreed_start {c : Configuration} {location : Url} {now : Instant} {p : Planner}
    (hStart : start c location now = .ok p) : p.Agreed := by
  obtain ⟨place, -, rfl⟩ := start_eq_ok hStart
  exact nofun

theorem agreed_run {c : Configuration} {location : Url} {now : Instant} {p : Planner}
    (hStart : start c location now = .ok p) (events : List Event) : (p.run events).Agreed :=
  run_induction (agreed_start hStart) (fun _ e h => agreed_update h e) events

theorem shown_run_of_mem {p : Planner} {events : List Event} (h : .mount ∈ events) :
    (p.run events).Shown := by
  obtain ⟨before, after, rfl⟩ := List.append_of_mem h
  have hSplit : p.run (before ++ .mount :: after) =
      ((p.run before).update .mount).planner.run after := by simp [run]
  rw [hSplit]
  exact run_induction (shown_mount _) (fun _ e h => shown_update h e) after

/-- **Query, address bar and request agree.** After every event from the first mount on, the
address bar shows the link of the query on the location at which the planner was started; the
event has overwritten it, once, exactly if that is not the link shown before; and a complete query
of a planner that is not inert is the latest request, whose query is the one in the address bar. -/
theorem agreement {c : Configuration} {location : Url} {now : Instant} {p : Planner}
    (hStart : start c location now = .ok p) (before : List Event) (e : Event)
    (hMount : .mount ∈ before ++ [e]) :
    (p.run (before ++ [e])).bar.location =
        c.linkFormat.link location (p.run (before ++ [e])).query ∧
      (p.run (before ++ [e])).bar.replaced = (p.run before).bar.replaced +
        (if c.linkFormat.link location (p.run (before ++ [e])).query = (p.run before).bar.location
        then 0 else 1) ∧
      ((p.run (before ++ [e])).info.isSome → (p.run (before ++ [e])).query.isComplete →
        ∃ place, c.routePlace = .ok place ∧
          (p.run (before ++ [e])).request =
            some (c.linkFormat.link place (p.run (before ++ [e])).query).text ∧
          (p.run (before ++ [e])).results.request = (p.run (before ++ [e])).request ∧
          (c.linkFormat.link place (p.run (before ++ [e])).query).query =
            (p.run (before ++ [e])).bar.location.query) := by
  obtain ⟨place, hPlace, hRequests⟩ := start_requests hStart
  have hLink : ∀ events q,
      (p.run events).requests.format.link (p.run events).bar.location q =
        c.linkFormat.link location q := by
    intro events q
    have hAnchored : (p.run events).Anchored location :=
      run_induction (anchored_start hStart) (fun _ e h => anchored_update h e) events
    rw [hAnchored q, run_requests, hRequests]
  have hShown : (p.run (before ++ [e])).bar.location =
      c.linkFormat.link location (p.run (before ++ [e])).query :=
    ((hLink _ _).symm.trans (shown_run_of_mem hMount)).symm
  refine ⟨hShown, ?_, ?_⟩
  · have hBefore : e = .mount ∨ (p.run before).Shown := by
      rcases List.mem_append.mp hMount with h | h
      · exact Or.inr (shown_run_of_mem h)
      · exact Or.inl (List.mem_singleton.mp h).symm
    have hReplaced := replaced_update hBefore
    rw [← run_concat, hLink] at hReplaced
    exact hReplaced
  · intro hInfo hComplete
    have hAgreed : (p.run (before ++ [e])).Agreed :=
      run_induction (agreed_start hStart) (fun _ e h => agreed_update h e) _
    refine ⟨place, hPlace, ?_, hAgreed hInfo hComplete, ?_⟩
    · rw [request, run_requests, hRequests]
      exact if_pos hComplete
    · rw [hShown]
      exact LinkFormat.query_link _ _ _ _

/-- The usual planner is shown, hears from the server, has a trip edited in and is asked again. -/
theorem agreement_usual :
    (usual.run [.mount, .info (.ok usualServer), .edit usualTrip, .refresh]).bar.location =
        (Configuration.linkFormat {}).link usualPage
          (usual.run [.mount, .info (.ok usualServer), .edit usualTrip, .refresh]).query ∧
      (usual.run [.mount, .info (.ok usualServer), .edit usualTrip, .refresh]).results.request =
        (usual.run [.mount, .info (.ok usualServer), .edit usualTrip, .refresh]).request := by
  obtain ⟨hShown, -, hRequest⟩ :=
    agreement start_usual [.mount, .info (.ok usualServer), .edit usualTrip] .refresh (by simp)
  simp only [List.cons_append, List.nil_append] at hShown hRequest
  obtain ⟨place, -, -, hSent, -⟩ := hRequest (by decide +kernel) (by decide +kernel)
  exact ⟨hShown, hSent⟩

end Planner

end TripPlanner
