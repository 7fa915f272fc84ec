import TripPlanner.Planner.Basic
import TripPlanner.Proofs.Query.Edits
import Mathlib.Data.List.Induction

/-!
# What events do to the planner

An event acts on the parts of the planner separately. Query, description of the server and address
bar go their own ways (`update_query`, `update_info`, `update_bar`): no result and no answer about
routes has a part in them. The results change in one of a few turns (`Turn`, `update_turn`), each
with its own effects.

* `Planner.run`, `Planner.emitted`: the planner after some events, and what it asks for meanwhile.
* `Planner.Commutes`, `run_view`: planners seen in a view, event by event and run by run.
* `Planner.Turn`: what an event can do to the results.
* `update_routes_of_eq`, `update_routes_of_ne`: an answer that counts and one that does not.
-/

namespace TripPlanner

/-! ## The parts that go their own ways -/

namespace Event

/-- The query after an event. Only edits change it. -/
def onQuery : Event → Query → Query
  | .edit e, q => (q.apply e).1
  | _, q => q

/-- What is known about the server after an event. -/
def onInfo : Event → Option ServiceInfo → Option ServiceInfo
  | .info (.ok description), _ => some description
  | _, known => known

/-- The address bar after an event that finds some query. -/
def onBar (format : LinkFormat) : Event → Query → AddressBar → AddressBar
  | .mount, q, bar => bar.sync format q
  | .edit e, q, bar => if (q.apply e).2.any then bar.sync format (q.apply e).1 else bar
  | _, _, bar => bar

end Event

namespace Planner

/-- The planner after some events. -/
def run (p : Planner) (events : List Event) : Planner :=
  events.foldl (fun p e => (p.update e).planner) p

@[simp] theorem run_concat (p : Planner) (events : List Event) (e : Event) :
    p.run (events ++ [e]) = ((p.run events).update e).planner := by
  simp [run]

/-- What holds at the start and is kept by every event holds after every run. -/
theorem run_induction {P : Planner → Prop} {p : Planner} (hStart : P p)
    (hStep : ∀ p e, P p → P (p.update e).planner) (events : List Event) : P (p.run events) := by
  induction events generalizing p with
  | nil => exact hStart
  | cons e events ih => exact ih (hStep p e hStart)

/-- What holds at the start and is kept by every event, given the events before it, holds after
every run. -/
theorem history_induction {P : List Event → Planner → Prop} {p : Planner} (hStart : P [] p)
    (hStep : ∀ events e, P events (p.run events) →
      P (events ++ [e]) ((p.run events).update e).planner)
    (events : List Event) : P events (p.run events) := by
  induction events using List.reverseRecOn with
  | nil => exact hStart
  | append_singleton events e ih =>
    rw [run_concat]
    exact hStep events e ih

/-- What a run asks for, event by event. -/
def emitted (p : Planner) : List Event → List (List Effect)
  | [] => []
  | e :: events => (p.update e).effects :: (p.update e).planner.emitted events

theorem emitted_concat (p : Planner) (events : List Event) (e : Event) :
    p.emitted (events ++ [e]) = p.emitted events ++ [((p.run events).update e).effects] := by
  induction events generalizing p with
  | nil => rfl
  | cons first events ih =>
    simp only [List.cons_append, emitted, ih]
    rfl

/-- What one event does to a planner, seen in a view, is what another does to the view. -/
def Commutes (view : Planner → Planner) (p : Planner) (e e' : Event) : Prop :=
  ((view p).update e').planner = view (p.update e).planner ∧
    ((view p).update e').effects = (p.update e).effects

/-- What every single event does in a view, whole runs do. -/
theorem run_view {P : Planner → Prop} {view : Planner → Planner} {strip : Event → Event}
    (hKeeps : ∀ p e, P p → P (p.update e).planner)
    (hStep : ∀ p e, P p → Commutes view p e (strip e)) {p : Planner} (h : P p)
    (events : List Event) :
    (view p).run (events.map strip) = view (p.run events) ∧
      (view p).emitted (events.map strip) = p.emitted events := by
  induction events generalizing p with
  | nil => exact ⟨rfl, rfl⟩
  | cons e events ih =>
    obtain ⟨hPlanner, hEffects⟩ := hStep p e h
    obtain ⟨hRun, hEmitted⟩ := ih (hKeeps p e h)
    constructor
    · change ((view p).update (strip e)).planner.run (events.map strip) = _
      rw [hPlanner]
      exact hRun
    · simp only [List.map_cons, emitted, hPlanner, hEffects, hEmitted]

theorem commutes_select {view : Planner → Planner} {p : Planner} {index : Nat}
    (h : (view p).select index = (p.select index).map view) :
    Commutes view p (.select index) (.select index) := by
  unfold Commutes
  simp only [update, h]
  cases p.select index with
  | error failure => exact ⟨rfl, rfl⟩
  | ok p' => exact ⟨rfl, rfl⟩

theorem commutes_refresh {view : Planner → Planner} {p : Planner}
    (h : (view p).send true = (view (p.send true).1, (p.send true).2)) :
    Commutes view p .refresh .refresh := by
  change ((view p).send true).1 = _ ∧ ((view p).send true).2 = _
  rw [h]
  exact ⟨rfl, rfl⟩

/-! ## Sending -/

theorem send_eq (p : Planner) (again : Bool) :
    (p.send again).1 = { p with results := (p.send again).1.results } := by
  unfold send
  split <;> rfl

theorem request_eq_none_iff {p : Planner} : p.request = none ↔ p.query.isComplete = false := by
  simp [request, Requests.canonical]

theorem isComplete_of_request {p : Planner} {r : String} (h : p.request = some r) :
    p.query.isComplete := by
  cases hComplete : p.query.isComplete with
  | true => rfl
  | false =>
    rw [request_eq_none_iff.mpr hComplete] at h
    cases h

theorem exists_request {p : Planner} (h : p.query.isComplete) : ∃ r, p.request = some r :=
  ⟨_, if_pos h⟩

end Planner

theorem Requests.send_cases (s : Requests) (q : Query) (results : Results) (again : Bool) :
    (s.send q results again = (results, []) ∧
      (s.canonical q = none ∨ again = false ∧ results.request = s.canonical q)) ∨
    ∃ r, s.canonical q = some r ∧
      s.send q results again = (s.sent results r, [.fetchRoutes r]) := by
  unfold send
  cases s.canonical q with
  | none => exact Or.inl ⟨rfl, Or.inl rfl⟩
  | some r =>
    by_cases hSent : (!again && decide (results.request = some r)) = true
    · refine Or.inl ⟨if_pos hSent, Or.inr ?_⟩
      simpa only [Bool.and_eq_true, Bool.not_eq_true', decide_eq_true_eq] using hSent
    · exact Or.inr ⟨r, rfl, if_neg hSent⟩

/-- Without `again` a query that is not complete or was the latest one sent is not sent. -/
theorem Requests.send_quiet {s : Requests} {q : Query} {results : Results} {again : Bool}
    (h : s.canonical q = none ∨ again = false ∧ results.request = s.canonical q) :
    s.send q results again = (results, []) := by
  unfold send
  rcases h with hNone | ⟨rfl, hSent⟩
  · rw [hNone]
  · cases hCanonical : s.canonical q with
    | none => rfl
    | some r => exact if_pos (by simp [hSent, hCanonical])

namespace Planner

theorem send_of_inert {p : Planner} (h : p.info = none) (again : Bool) :
    p.send again = (p, []) := by
  simp [send, h]

theorem send_of_info {p : Planner} (h : p.info.isSome) (again : Bool) :
    p.send again = ({ p with results := (p.requests.send p.query p.results again).1 },
      (p.requests.send p.query p.results again).2) := by
  have hSome : p.info.isNone = false := by simpa using h
  simp [send, hSome]

theorem send_quiet {p : Planner} {again : Bool}
    (h : p.request = none ∨ again = false ∧ p.results.request = p.request) :
    p.send again = (p, []) := by
  rcases Option.eq_none_or_eq_some p.info with hInfo | ⟨description, hInfo⟩
  · exact send_of_inert hInfo again
  · rw [send_of_info (by simp [hInfo]), Requests.send_quiet h]

theorem send_cases (p : Planner) (again : Bool) :
    (p.send again = (p, []) ∧
      (p.info = none ∨ p.request = none ∨ again = false ∧ p.results.request = p.request)) ∨
    ∃ r, p.info.isSome ∧ p.request = some r ∧
      p.send again = ({ p with results := p.requests.sent p.results r }, [.fetchRoutes r]) := by
  rcases Option.eq_none_or_eq_some p.info with hInfo | ⟨description, hInfo⟩
  · exact Or.inl ⟨send_of_inert hInfo again, Or.inl hInfo⟩
  · have hSome : p.info.isSome := by simp [hInfo]
    rw [send_of_info hSome]
    rcases p.requests.send_cases p.query p.results again with ⟨hSend, h⟩ | ⟨r, hRequest, hSend⟩
    · rw [hSend]
      exact Or.inl ⟨rfl, Or.inr h⟩
    · rw [hSend]
      exact Or.inr ⟨r, hSome, hRequest, rfl⟩

/-! ## One event -/

/-- The planner with its query edited, and nothing else done yet. -/
def edited (p : Planner) (e : Edit) : Planner := { p with query := (p.query.apply e).1 }

/-- Whether an edit sends a request that has already been sent. -/
def resends (p : Planner) (e : Edit) : Bool :=
  (p.query.apply e).2.auxiliary && p.reaction.resends (p.query.apply e).1.auxiliaryDistance

theorem edit_of_any {p : Planner} {e : Edit} (h : (p.query.apply e).2.any = true) :
    (p.edit e).planner = ((p.edited e).sync.send (p.resends e)).1 ∧
      (p.edit e).effects = ((p.edited e).sync.send (p.resends e)).2 := by
  simp [edit, h, edited, resends]

theorem edit_of_not_any {p : Planner} {e : Edit} (h : (p.query.apply e).2.any = false) :
    p.edit e = ⟨p, [], []⟩ := by
  simp [edit, h, Query.apply_of_not_any h]

/-- An edit sends nothing if it leaves the query incomplete, or if it leads back to the latest query
sent and does not have to send again. -/
theorem edit_quiet {p : Planner} {e : Edit}
    (h : (p.edited e).request = none ∨
      p.resends e = false ∧ p.results.request = (p.edited e).request) :
    (p.edit e).effects = [] ∧ (p.edit e).planner.results = p.results := by
  cases hAny : (p.query.apply e).2.any with
  | false =>
    rw [edit_of_not_any hAny]
    exact ⟨rfl, rfl⟩
  | true =>
    rw [(edit_of_any hAny).1, (edit_of_any hAny).2]
    have hQuiet : (p.edited e).sync.send (p.resends e) = ((p.edited e).sync, []) := send_quiet h
    rw [hQuiet]
    exact ⟨rfl, rfl⟩

theorem select_eq_ok {p p' : Planner} {index : Nat} (h : p.select index = .ok p') :
    ∃ results, p.rule.pick p.results index = .ok results ∧ p' = { p with results } := by
  unfold select at h
  cases hPick : p.rule.pick p.results index with
  | error failure =>
    rw [hPick] at h
    cases h
  | ok results =>
    rw [hPick] at h
    cases h
    exact ⟨results, rfl, rfl⟩

/-- Asked for routes once more, the planner sends the request of its query. -/
theorem update_refresh {p : Planner} {r : String} (hInfo : p.info.isSome)
    (hRequest : p.request = some r) :
    p.update .refresh =
      ⟨{ p with results := p.requests.sent p.results r }, [.fetchRoutes r], []⟩ := by
  have hSend : p.send true =
      ({ p with results := p.requests.sent p.results r }, [.fetchRoutes r]) := by
    rcases send_cases p true with ⟨-, hInert | hNone | ⟨hAgain, -⟩⟩ | ⟨r', -, hr', hSend⟩
    · simp [hInert] at hInfo
    · simp [hNone] at hRequest
    · cases hAgain
    · obtain rfl : r' = r := Option.some.inj (hr'.symm.trans hRequest)
      exact hSend
  simp only [update, hSend]

/-- An answer that counts settles the results. -/
theorem update_routes_of_eq {p : Planner} {r : String} (h : p.request = some r)
    (a : RoutesAnswer) :
    p.update (.routes r a) =
      ⟨{ p with results := Requests.settle r a }, [], Requests.settleNotices a⟩ := by
  have hCanonical : p.requests.canonical p.query = some r := h
  simp [update, Requests.receive, hCanonical]

/-- An answer that does not count changes nothing and asks for nothing. -/
theorem update_routes_of_ne {p : Planner} {r : String} (h : p.request ≠ some r)
    (a : RoutesAnswer) : p.update (.routes r a) = ⟨p, [], []⟩ := by
  have hCanonical : ¬ p.requests.canonical p.query = some r := h
  simp [update, Requests.receive, hCanonical]

/-- Query, description and address bar after an event, each by its own rule. The settings stay. -/
theorem update_eq (p : Planner) (e : Event) :
    (p.update e).planner =
      { p with
        query := e.onQuery p.query
        results := (p.update e).planner.results
        info := e.onInfo p.info
        bar := e.onBar p.requests.format p.query p.bar } := by
  cases e with
  | mount => rfl
  | edit e =>
    cases h : (p.query.apply e).2.any with
    | true =>
      simp only [update, (edit_of_any h).1, Event.onBar, h, if_true]
      exact send_eq _ _
    | false =>
      simp [update, edit_of_not_any h, Event.onQuery, Event.onInfo, Event.onBar, h,
        Query.apply_of_not_any h]
  | select index =>
    cases hSelect : p.select index with
    | error failure => simp [update, hSelect, Event.onQuery, Event.onInfo, Event.onBar]
    | ok p' =>
      obtain ⟨results, -, rfl⟩ := select_eq_ok hSelect
      simp [update, hSelect, Event.onQuery, Event.onInfo, Event.onBar]
  | refresh => exact send_eq p true
  | info answer =>
    cases answer with
    | error fault => rfl
    | ok description => exact send_eq { p with info := some description } false
  | routes r a => rfl

@[simp] theorem update_requests (p : Planner) (e : Event) :
    (p.update e).planner.requests = p.requests := by rw [update_eq]

theorem update_query (p : Planner) (e : Event) :
    (p.update e).planner.query = e.onQuery p.query := congrArg query (update_eq p e)

/-- The query follows the events alone. -/
theorem run_query (p : Planner) (events : List Event) :
    (p.run events).query = events.foldl (fun q e => e.onQuery q) p.query := by
  induction events generalizing p with
  | nil => rfl
  | cons e events ih =>
    change ((p.update e).planner.run events).query = _
    rw [ih, update_query]
    rfl

theorem update_info (p : Planner) (e : Event) :
    (p.update e).planner.info = e.onInfo p.info := congrArg info (update_eq p e)

theorem update_bar (p : Planner) (e : Event) :
    (p.update e).planner.bar = e.onBar p.requests.format p.query p.bar :=
  congrArg bar (update_eq p e)

theorem update_rule (p : Planner) (e : Event) : (p.update e).planner.rule = p.rule := by
  rw [update_eq]

theorem update_reaction (p : Planner) (e : Event) :
    (p.update e).planner.reaction = p.reaction := by rw [update_eq]

/-- What no event changes, no run changes. -/
theorem run_of_update {α : Type} {f : Planner → α} (h : ∀ p e, f (p.update e).planner = f p)
    (p : Planner) (events : List Event) : f (p.run events) = f p :=
  run_induction (P := fun p' => f p' = f p) rfl (fun p' e hRun => (h p' e).trans hRun) events

theorem run_requests (p : Planner) (events : List Event) :
    (p.run events).requests = p.requests := run_of_update update_requests p events

theorem run_rule (p : Planner) (events : List Event) : (p.run events).rule = p.rule :=
  run_of_update update_rule p events

theorem run_reaction (p : Planner) (events : List Event) :
    (p.run events).reaction = p.reaction := run_of_update update_reaction p events

/-- What the server has said about itself stays known. -/
theorem info_update {p : Planner} (h : p.info.isSome) (e : Event) :
    (p.update e).planner.info.isSome := by
  rw [update_info]
  unfold Event.onInfo
  split
  · rfl
  · exact h

/-- A pick asks for nothing. -/
theorem effects_select (p : Planner) (index : Nat) : (p.update (.select index)).effects = [] := by
  simp only [update]
  split
  · rfl
  · rfl

theorem effects_routes (p : Planner) (r : String) (a : RoutesAnswer) :
    (p.update (.routes r a)).effects = [] := by
  by_cases h : p.request = some r
  · rw [update_routes_of_eq h]
  · rw [update_routes_of_ne h]

/-- Until the server has described itself an edit asks for nothing. -/
theorem effects_edit_of_inert {p : Planner} (h : p.info = none) (e : Edit) :
    (p.update (.edit e)).effects = [] := by
  change (p.edit e).effects = []
  cases hAny : (p.query.apply e).2.any with
  | false => rw [edit_of_not_any hAny]
  | true =>
    have hInert : (p.edited e).sync.info = none := h
    rw [(edit_of_any hAny).2, send_of_inert hInert]

/-! ## The results -/

/-- What an event can do to the results of a planner, with the effects that go with it. -/
inductive Turn (p : Planner) (e : Event) (after : Planner) (effects : List Effect) : Prop
  /-- The results stay, and nothing is asked for. -/
  | kept (hResults : after.results = p.results) (hEffects : effects = [])
  /-- The results stay, and the server is asked to describe itself. -/
  | asked (hEvent : e = .mount) (hResults : after.results = p.results)
      (hEffects : effects = [.fetchInfo])
  /-- The request of the query is sent. -/
  | sent (r : String) (hInfo : after.info.isSome) (hRequest : after.request = some r)
      (hResults : after.results = p.requests.sent p.results r)
      (hEffects : effects = [.fetchRoutes r])
  /-- An answer arrives that counts. -/
  | settled (r : String) (a : RoutesAnswer) (hEvent : e = .routes r a)
      (hRequest : p.request = some r) (hResults : after.results = Requests.settle r a)
      (hEffects : effects = [])
  /-- An itinerary is picked. -/
  | picked (index : Nat) (hEvent : e = .select index)
      (hPick : p.rule.pick p.results index = .ok after.results) (hEffects : effects = [])

/-- Sending is a turn of any planner with the same results and the same way of making requests. -/
theorem turn_send {p : Planner} (p' : Planner) (e : Event) (again : Bool)
    (hRequests : p'.requests = p.requests) (hResults : p'.results = p.results) :
    Turn p e (p'.send again).1 (p'.send again).2 := by
  rcases send_cases p' again with ⟨hSend, -⟩ | ⟨r, hInfo, hRequest, hSend⟩
  · rw [hSend]
    exact .kept hResults rfl
  · rw [hSend]
    exact .sent r hInfo hRequest (by rw [← hRequests, ← hResults]) rfl

theorem update_turn (p : Planner) (e : Event) :
    Turn p e (p.update e).planner (p.update e).effects := by
  cases e with
  | mount => exact .asked rfl rfl rfl
  | edit e =>
    cases h : (p.query.apply e).2.any with
    | true =>
      change Turn p (.edit e) (p.edit e).planner (p.edit e).effects
      rw [(edit_of_any h).1, (edit_of_any h).2]
      exact turn_send _ _ _ rfl rfl
    | false =>
      change Turn p (.edit e) (p.edit e).planner (p.edit e).effects
      rw [edit_of_not_any h]
      exact .kept rfl rfl
  | select index =>
    cases hSelect : p.select index with
    | error failure =>
      simp only [update, hSelect]
      exact .kept rfl rfl
    | ok p' =>
      obtain ⟨results, hPick, rfl⟩ := select_eq_ok hSelect
      simp only [update, hSelect]
      exact .picked index rfl hPick rfl
  | refresh => exact turn_send _ _ true rfl rfl
  | info answer =>
    cases answer with
    | error fault => exact .kept rfl rfl
    | ok description => exact turn_send { p with info := some description } _ false rfl rfl
  | routes r a =>
    by_cases h : p.request = some r
    · rw [update_routes_of_eq h]
      exact .settled r a rfl h rfl rfl
    · rw [update_routes_of_ne h]
      exact .kept rfl rfl

/-- Once the server has described itself the planner asks for routes or for nothing. -/
theorem effects_info (p : Planner) (a : InfoAnswer) :
    (p.update (.info a)).effects = [] ∨
      ∃ r, (p.update (.info a)).effects = [.fetchRoutes r] := by
  cases update_turn p (.info a) with
  | kept _ hEffects => exact Or.inl hEffects
  | asked hEvent _ _ => cases hEvent
  | sent r _ _ _ hEffects => exact Or.inr ⟨r, hEffects⟩
  | settled _ _ hEvent _ _ _ => cases hEvent
  | picked _ hEvent _ _ => cases hEvent

/-- No event asks for more than one thing. -/
theorem effects_length_le (p : Planner) (e : Event) : (p.update e).effects.length ≤ 1 := by
  cases update_turn p e with
  | kept _ hEffects => simp [hEffects]
  | asked _ _ hEffects => simp [hEffects]
  | sent _ _ _ _ hEffects => simp [hEffects]
  | settled _ _ _ _ _ hEffects => simp [hEffects]
  | picked _ _ _ hEffects => simp [hEffects]

end Planner

end TripPlanner
