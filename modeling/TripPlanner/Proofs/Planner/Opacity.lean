import TripPlanner.Proofs.Planner.Events
import TripPlanner.Proofs.Planner.Start

/-!
# What is carried along

Most of what the routing server says is only carried along. Of its description of itself the
planner needs to know that there is one, of a fault that there was one, and of an itinerary whether
it is possible. So planners are seen in outline here, with everything else that came from the server
blanked out: what a planner does in outline it does whatever has been blanked out
(`update_outline`), and two runs that differ in nothing else cannot be told apart (`opacity`).

* `Planner.outline`, `Event.outline`: planners and events without what is carried along.
* `Event.Similar`: events that differ in nothing else.
-/

namespace TripPlanner

/-- An itinerary without the members that nothing is known about. -/
def Itinerary.outline (i : Itinerary) : Itinerary := { i with others := [] }

/-- Results with their itineraries in outline. -/
def Results.outline (r : Results) : Results := { r with paths := r.paths.map Itinerary.outline }

/-- The description of a server of which nothing is known but that it has described itself. -/
def ServiceInfo.blank : ServiceInfo := ⟨[], none, none, [], []⟩

/-- An answer in outline. The marks that come with itineraries are blanked out as well. -/
def Requests.outline : RoutesAnswer → RoutesAnswer
  | .ok paths => .ok (paths.map fun i => .plain i.isPossible)
  | .error _ => .error (.setup "")

/-- An event without what it carries along. -/
def Event.outline : Event → Event
  | .info (.ok _) => .info (.ok .blank)
  | .info (.error _) => .info (.error (.setup ""))
  | .routes r a => .routes r (Requests.outline a)
  | e => e

/-- Two events are the same but for what is carried along. -/
inductive Event.Similar : Event → Event → Prop
  | same (e : Event) : Similar e e
  | described (d d' : ServiceInfo) : Similar (.info (.ok d)) (.info (.ok d'))
  | undescribed (f f' : RequestFault) : Similar (.info (.error f)) (.info (.error f'))
  | brought (r : String) {paths paths' : List Itinerary}
      (hPossible : paths.map Itinerary.isPossible = paths'.map Itinerary.isPossible) :
      Similar (.routes r (.ok paths)) (.routes r (.ok paths'))
  | failed (r : String) (f f' : RequestFault) : Similar (.routes r (.error f)) (.routes r (.error f'))

theorem Event.Similar.outline_eq {e e' : Event} (h : e.Similar e') : e.outline = e'.outline := by
  cases h with
  | same => rfl
  | described => rfl
  | undescribed => rfl
  | brought r hPossible =>
    have hPlain := congrArg (List.map Itinerary.plain) hPossible
    rw [List.map_map, List.map_map] at hPlain
    exact congrArg (fun paths => Event.routes r (.ok paths)) hPlain
  | failed => rfl

/-! ## Results -/

namespace Results

/-- What changes nothing that is carried along changes itineraries in outline as it changes them at
all. -/
theorem map_outline_modify {f : Itinerary → Itinerary} (hf : ∀ i, (f i).outline = f i.outline)
    (paths : List Itinerary) (index : Nat) :
    (paths.modify index f).map Itinerary.outline =
      (paths.map Itinerary.outline).modify index f := by
  apply List.ext_getElem?
  intro k
  simp only [List.getElem?_map, List.getElem?_modify]
  cases paths[k]? with
  | none => rfl
  | some i =>
    by_cases h : index = k
    · simp [h, hf]
    · simp [h]

theorem map_outline_unpicked (paths : List Itinerary) :
    (paths.map unpicked).map Itinerary.outline = (paths.map Itinerary.outline).map unpicked := by
  rw [List.map_map, List.map_map]
  rfl

theorem succeeded_outline (request : String) (paths : List Itinerary) :
    succeeded request (paths.map fun i => .plain i.isPossible) =
      (succeeded request paths).outline := by
  have hUnpicked : (paths.map fun i => Itinerary.plain i.isPossible).map unpicked =
      (paths.map unpicked).map Itinerary.outline := by
    rw [List.map_map, List.map_map]
    rfl
  have hFirst : ((paths.map unpicked).map Itinerary.outline).findIdx? (·.isPossible) =
      (paths.map unpicked).findIdx? (·.isPossible) := by
    rw [List.findIdx?_map]
    rfl
  simp only [succeeded, pickFirst, hUnpicked, hFirst]
  cases (paths.map unpicked).findIdx? (·.isPossible) with
  | none => rfl
  | some index =>
    have hMarked := map_outline_modify (f := fun i => { i with isSelected := true }) (fun _ => rfl)
      (paths.map unpicked) index
    simp only [outline, hMarked]

end Results

namespace SelectionRule

open Results

theorem move_outline (r : Results) (index : Nat) :
    move r.outline index = (move r index).outline := by
  have hMarked := fun paths => map_outline_modify (f := fun i => { i with isSelected := true })
    (fun _ => rfl) paths index
  have hSelection : r.outline.selection = r.selection := rfl
  simp only [move, hSelection]
  cases r.selection with
  | none => simp only [Results.outline, hMarked]
  | some old =>
    have hReleased := map_outline_modify (f := unpicked) (fun _ => rfl) r.paths old
    simp only [Results.outline, hMarked, hReleased]

/-- Which itineraries may be picked can be told from the outline. -/
theorem pick_outline (rule : SelectionRule) (r : Results) (index : Nat) :
    rule.pick r.outline index = (rule.pick r index).map Results.outline := by
  have hTarget : r.outline.paths[index]? = (r.paths[index]?).map Itinerary.outline :=
    List.getElem?_map
  have hLength : r.outline.paths.length = r.paths.length := List.length_map _
  simp only [pick, hTarget, hLength, move_outline]
  cases r.paths[index]? with
  | none => rfl
  | some i =>
    simp only [Option.map_some]
    by_cases hRefused : rule = .feasibleOnly ∧ !i.isPossible
    · rw [if_pos hRefused]
      exact if_pos hRefused
    · rw [if_neg hRefused]
      exact if_neg hRefused

end SelectionRule

namespace Requests

theorem settle_outline (r : String) (a : RoutesAnswer) :
    settle r (outline a) = (settle r a).outline := by
  cases a with
  | ok paths => exact Results.succeeded_outline r paths
  | error fault => rfl

theorem sent_outline (s : Requests) (results : Results) (r : String) :
    s.sent results.outline r = (s.sent results r).outline := by
  simp only [sent, Results.fetching, Results.outline]
  cases s.keepsPaths with
  | true => simp only [if_true, Results.map_outline_unpicked]
  | false => rfl

theorem send_outline (s : Requests) (q : Query) (results : Results) (again : Bool) :
    s.send q results.outline again =
      ((s.send q results again).1.outline, (s.send q results again).2) := by
  have hRequest : results.outline.request = results.request := rfl
  simp only [send, sent_outline, hRequest]
  cases s.canonical q with
  | none => rfl
  | some r =>
    by_cases hSent : (!again && decide (results.request = some r)) = true
    · simp only [hSent, if_true]
    · simp only [hSent, if_false, Bool.false_eq_true]

end Requests

/-! ## Planners -/

namespace Planner

/-- A planner without what it carries along. -/
def outline (p : Planner) : Planner :=
  { p with results := p.results.outline, info := p.info.map fun _ => .blank }

theorem send_outline (p : Planner) (again : Bool) :
    p.outline.send again = ((p.send again).1.outline, (p.send again).2) := by
  by_cases hInfo : p.info.isSome
  · have hInfo' : p.outline.info.isSome := by simpa [outline] using hInfo
    rw [send_of_info hInfo, send_of_info hInfo']
    simp only [outline, Requests.send_outline]
  · have hInert : p.info = none := by simpa using hInfo
    have hInert' : p.outline.info = none := by simp [outline, hInert]
    rw [send_of_inert hInert, send_of_inert hInert']

theorem select_outline (p : Planner) (index : Nat) :
    p.outline.select index = (p.select index).map outline := by
  have hPick := p.rule.pick_outline p.results index
  change (p.rule.pick p.results.outline index).map _ =
    ((p.rule.pick p.results index).map _).map _
  rw [hPick]
  cases p.rule.pick p.results index with
  | error failure => rfl
  | ok results => rfl

theorem edit_outline (p : Planner) (e : Edit) : Commutes outline p (.edit e) (.edit e) := by
  change (p.outline.edit e).planner = (p.edit e).planner.outline ∧
    (p.outline.edit e).effects = (p.edit e).effects
  by_cases hAny : (p.query.apply e).2.any = true
  · have hEdited : (p.outline.edited e).sync = (p.edited e).sync.outline := rfl
    have hResends : p.outline.resends e = p.resends e := rfl
    rw [(edit_of_any hAny).1, (edit_of_any hAny).2, (edit_of_any (p := p.outline) hAny).1,
      (edit_of_any (p := p.outline) hAny).2, hEdited, hResends, send_outline]
    exact ⟨rfl, rfl⟩
  · have hNone : (p.query.apply e).2.any = false := (Bool.not_eq_true _).mp hAny
    rw [edit_of_not_any hNone, edit_of_not_any (p := p.outline) hNone]
    exact ⟨rfl, rfl⟩

/-- One event does in outline what it does at all. -/
theorem update_outline (p : Planner) (e : Event) : Commutes outline p e e.outline := by
  cases e with
  | mount => exact ⟨rfl, rfl⟩
  | edit e => exact edit_outline p e
  | select index => exact commutes_select (select_outline p index)
  | refresh => exact commutes_refresh (send_outline p true)
  | info answer =>
    cases answer with
    | error fault => exact ⟨rfl, rfl⟩
    | ok description =>
      change (({ p with info := some description } : Planner).outline.send false).1 = _ ∧
        (({ p with info := some description } : Planner).outline.send false).2 = _
      rw [send_outline]
      exact ⟨rfl, rfl⟩
  | routes r a =>
    change (p.outline.update (.routes r (Requests.outline a))).planner = _ ∧
      (p.outline.update (.routes r (Requests.outline a))).effects = _
    by_cases hRequest : p.request = some r
    · rw [update_routes_of_eq hRequest, update_routes_of_eq (p := p.outline) hRequest,
        Requests.settle_outline]
      exact ⟨rfl, rfl⟩
    · rw [update_routes_of_ne hRequest, update_routes_of_ne (p := p.outline) hRequest]
      exact ⟨rfl, rfl⟩

theorem run_outline (p : Planner) (events : List Event) :
    p.outline.run (events.map Event.outline) = (p.run events).outline ∧
      p.outline.emitted (events.map Event.outline) = p.emitted events :=
  run_view (P := fun _ => True) (fun _ _ h => h) (fun p e _ => update_outline p e) trivial events

/-- What can be told from the outline. -/
theorem of_outline_eq {p p' : Planner} (h : p'.outline = p.outline) :
    p'.query = p.query ∧ p'.bar = p.bar ∧ p'.info.isSome = p.info.isSome ∧
      p'.results.request = p.results.request ∧ p'.results.progress = p.results.progress ∧
      p'.results.selected = p.results.selected ∧
      p'.results.paths.map Itinerary.outline = p.results.paths.map Itinerary.outline := by
  simp only [outline, Results.outline, mk.injEq, Results.mk.injEq] at h
  obtain ⟨-, -, -, hQuery, ⟨hRequest, hProgress, hPaths, hSelected⟩, hInfo, hBar⟩ := h
  have hSome := congrArg Option.isSome hInfo
  rw [Option.isSome_map, Option.isSome_map] at hSome
  exact ⟨hQuery, hBar, hSome, hRequest, hProgress, hSelected, hPaths⟩

theorem map_outline_of_similar {events events' : List Event}
    (h : List.Forall₂ Event.Similar events events') :
    events.map Event.outline = events'.map Event.outline := by
  induction h with
  | nil => rfl
  | cons hSimilar _ ih => rw [List.map_cons, List.map_cons, hSimilar.outline_eq, ih]

/-- **What is carried along decides nothing.** Two runs of one planner whose events differ in
nothing but what is carried along ask for the same, event by event. In the end query, address bar,
latest request, progress and the index of the picked itinerary are the same, either both planners
have a description of the server or none has, and there are equally many itineraries, which are
possible and picked at the same places. -/
theorem opacity (p : Planner) {events events' : List Event}
    (hSimilar : List.Forall₂ Event.Similar events events') :
    p.emitted events' = p.emitted events ∧
      (p.run events').query = (p.run events).query ∧
      (p.run events').bar = (p.run events).bar ∧
      (p.run events').info.isSome = (p.run events).info.isSome ∧
      (p.run events').results.request = (p.run events).results.request ∧
      (p.run events').results.progress = (p.run events).results.progress ∧
      (p.run events').results.paths.length = (p.run events).results.paths.length ∧
      (p.run events').results.selected = (p.run events).results.selected ∧
      (p.run events').results.paths.map (fun i => (i.isPossible, i.isSelected)) =
        (p.run events).results.paths.map fun i => (i.isPossible, i.isSelected) := by
  have hEvents := map_outline_of_similar hSimilar
  obtain ⟨hRun, hEmitted⟩ := run_outline p events
  obtain ⟨hRun', hEmitted'⟩ := run_outline p events'
  rw [← hEvents] at hRun' hEmitted'
  have hOutline : (p.run events').outline = (p.run events).outline := hRun'.symm.trans hRun
  obtain ⟨hQuery, hBar, hInfo, hRequest, hProgress, hSelected, hPaths⟩ := of_outline_eq hOutline
  have hFlags := congrArg (List.map fun i : Itinerary => (i.isPossible, i.isSelected)) hPaths
  rw [List.map_map, List.map_map] at hFlags
  have hLength := congrArg List.length hPaths
  rw [List.length_map, List.length_map] at hLength
  exact ⟨hEmitted'.symm.trans hEmitted, hQuery, hBar, hInfo, hRequest, hProgress, hLength,
    hSelected, hFlags⟩

/-- The server describes itself in other words and brings another itinerary, which is already marked
as picked. The usual planner picks the one like the other. -/
theorem opacity_usual : ∃ r,
    List.Forall₂ Event.Similar
        [.info (.ok usualServer), .edit usualTrip, .routes r (.ok [.plain true])]
        [.info (.ok ⟨[], some "9.1", none, [], []⟩), .edit usualTrip,
          .routes r (.ok [⟨true, true, [("legs", .list [])]⟩])] ∧
      (usual.run [.info (.ok usualServer), .edit usualTrip,
        .routes r (.ok [.plain true])]).results.selected = 0 ∧
      (usual.run [.info (.ok ⟨[], some "9.1", none, [], []⟩), .edit usualTrip,
        .routes r (.ok [⟨true, true, [("legs", .list [])]⟩])]).results.selected = 0 := by
  obtain ⟨r, hRequest⟩ : ∃ r,
      (usual.run [.info (.ok usualServer), .edit usualTrip]).request = some r :=
    exists_request (by rw [run_query]; decide +kernel)
  have hSimilar : List.Forall₂ Event.Similar
      [.info (.ok usualServer), .edit usualTrip, .routes r (.ok [.plain true])]
      [.info (.ok ⟨[], some "9.1", none, [], []⟩), .edit usualTrip,
        .routes r (.ok [⟨true, true, [("legs", .list [])]⟩])] :=
    .cons (.described _ _) (.cons (.same _) (.cons (.brought r rfl) .nil))
  have hPicked : (usual.run ([.info (.ok usualServer), .edit usualTrip] ++
      [.routes r (.ok [.plain true])])).results.selected = 0 := by
    rw [run_concat, update_routes_of_eq hRequest]
    rfl
  simp only [List.cons_append, List.nil_append] at hPicked
  obtain ⟨-, -, -, -, -, -, -, hSelected, -⟩ := opacity usual hSimilar
  exact ⟨r, hSimilar, hPicked, hSelected.trans hPicked⟩

end Planner

end TripPlanner
