import TripPlanner.Proofs.Planner.Selection
import TripPlanner.Proofs.Results.Itineraries

/-!
# Results written and read again

Reading drops the mark of an itinerary, as it could come from a server. So results are read from
their own text up to the mark of the picked itinerary (`Results.read?_value`), while the index of
the pick is kept. This holds of the results of every run whose answers can be written and read again
(`Itinerary.Durable`), since what a planner shows is what some answer has brought, up to the marks
(`Planner.shown_run`).
-/

namespace TripPlanner

open Json

/-! ## Results in JSON -/

namespace Results

/-- Results without the mark of the picked itinerary. -/
def unmarked (r : Results) : Results := { r with paths := r.paths.map unpicked }

theorem selection_unmarked (r : Results) : r.unmarked.selection = r.selection := rfl

theorem selectedPath_unmarked (r : Results) :
    r.unmarked.selectedPath = r.selectedPath.map unpicked := by
  rw [selectedPath, selectedPath, selection_unmarked, Option.map_bind]
  congr 1
  funext index
  exact List.getElem?_map

/-- Results are unmarked exactly if no itinerary is picked. -/
theorem unmarked_eq_iff {r : Results} (h : r.Marked) : r.unmarked = r ↔ r.selection = none := by
  rcases h with ⟨hNone, hUnmarked⟩ | ⟨k, hLength, hSelected, hMarks⟩
  · refine iff_of_true ?_ (selection_of_noSelection hNone)
    have hPaths : r.paths.map unpicked = r.paths :=
      (List.map_congr_left fun i hMem => Itinerary.unpicked_of_not_isSelected
        (hUnmarked i hMem)).trans (List.map_id _)
    rw [unmarked, hPaths]
  · refine iff_of_false (fun hSame => ?_) (by rw [selection_of_selected hSelected]; nofun)
    obtain ⟨i, hPath⟩ : ∃ i, r.paths[k]? = some i := ⟨_, List.getElem?_eq_getElem hLength⟩
    have hMark : i.isSelected = true := (hMarks k i hPath).mpr rfl
    have hMem : i ∈ r.unmarked.paths := by
      rw [hSame]
      exact List.mem_of_getElem? hPath
    rw [isSelected_of_mem_map_unpicked hMem] at hMark
    cases hMark

theorem fitsSigned_iff {i : Int} : Word.fitsSigned 64 i = true ↔
    -(Word.values 63 : Int) ≤ i ∧ i < Word.values 63 := by
  rw [Word.fitsSigned, Bool.and_eq_true, decide_eq_true_eq, decide_eq_true_eq]

theorem fitsSigned_selected {r : Results} (h : r.Marked)
    (hCount : r.paths.length ≤ Word.values 63) : Word.fitsSigned 64 r.selected = true := by
  rcases h with ⟨hNone, -⟩ | ⟨k, hLength, hSelected, -⟩
  · rw [hNone]
    rfl
  · rw [hSelected, fitsSigned_iff]
    omega

theorem legible_selected {r : Results} (h : Word.fitsSigned 64 r.selected = true) :
    (Number.integer r.selected).Legible := by
  obtain ⟨hLow, hHigh⟩ := fitsSigned_iff.mp h
  have hHalf : Word.values 63 < Word.values 64 := by decide
  exact Number.legible_integer hLow (hHigh.trans (Int.ofNat_lt.mpr hHalf))

theorem legible_value {r : Results} (hPaths : ∀ i ∈ r.paths, i.value.Legible)
    (hSelected : Word.fitsSigned 64 r.selected = true) : r.value.Legible := by
  rw [value, Value.legible_record]
  simp only [List.forall_mem_cons, Value.legible_list, List.forall_mem_map, Value.legible_number]
  refine ⟨?_, Value.legible_text _, hPaths, legible_selected hSelected, List.forall_mem_nil _⟩
  cases r.request with
  | none => exact Value.legible_null
  | some request => exact Value.legible_text request

theorem shape_progress (r : Reading) (a : Progress) :
    Named.shape Progress r (.ofValue (Named.value a)) = some a := by
  cases a <;> rfl

/-- The members of results in JSON, in order. -/
def members (r : Results) : Members :=
  [("dispatched_request", .optional .text r.request), ("status", Named.value r.progress),
    ("paths", .list (r.paths.map Itinerary.value)),
    ("selected_index", .number (.integer r.selected))]

/-- Results are read from their own text up to the marks. -/
theorem read?_value {r : Results} (hPaths : ∀ i ∈ r.paths, i.Carried (Reading.document.depth - 3))
    (hSelected : Word.fitsSigned 64 r.selected = true) (hLegible : r.value.Legible) :
    Json.read? shape r.value.compact = some r.unmarked := by
  have hFields : Fields.read? names .document (.ofValue r.value) =
      some ⟨r.members.trees, false, .within 1⟩ :=
    Fields.read?_ofValue (Reading.within_inner? 0 (by decide))
      (show names.Nodup by decide) (by simp [names])
  have hRequest : Fields.optional ⟨r.members.trees, false, .within 1⟩ "dispatched_request"
      Shape.text = some r.request := by
    cases hRequest : r.request <;> simp [Fields.optional, Members.lookup_trees, members, hRequest]
    all_goals rfl
  have hStatus : Fields.required ⟨r.members.trees, false, .within 1⟩ "status"
      (Named.shape Progress) = some r.progress :=
    shape_progress (.within 1) r.progress
  have hItems : Fields.required ⟨r.members.trees, false, .within 1⟩ "paths"
      Itinerary.shape.list = some (r.paths.map unpicked) :=
    Shape.list_ofValue (Reading.within_inner? 1 (by decide)) fun i hMem =>
      Itinerary.shape_value (hPaths i hMem) (Reading.within_inner? 2 (by decide))
  have hIndex : Fields.required ⟨r.members.trees, false, .within 1⟩ "selected_index"
      (Shape.integer (Word.fitsSigned 64)) = some r.selected := if_pos hSelected
  rw [read?_compact _ hLegible]
  simp only [shape, hFields, hRequest, hStatus, hItems, hIndex, Option.bind_eq_bind,
    Option.bind_some]
  rfl

end Results

/-! ## Answers that can be written -/

namespace Itinerary

/-- Itineraries that can be written and read again: they carry along what they were read from, their
numbers are legible, and their places can be counted. -/
structure Durable (paths : List Itinerary) : Prop where
  carried : ∀ i ∈ paths, i.Carried (Reading.document.depth - 3)
  legible : ∀ i ∈ paths, i.value.Legible
  countable : paths.length ≤ Word.values 63

/-- An answer that has been read can be written and read again. -/
theorem durable_of_read {s : String} {paths : List Itinerary}
    (h : Json.read? answerShape s = some paths) (hLegible : ∀ i ∈ paths, i.value.Legible)
    (hCount : paths.length ≤ Word.values 63) : Durable paths := by
  obtain ⟨t, -, hAnswer⟩ := Option.bind_eq_some_iff.mp h
  exact ⟨fun i hMem => (carried_of_answerShape hAnswer i hMem).2, hLegible, hCount⟩

theorem durable_nil : Durable [] := ⟨nofun, nofun, Nat.zero_le _⟩

/-- Marks do not matter for this. -/
theorem Durable.of_map_unpicked {paths shown : List Itinerary} (h : Durable paths)
    (hSame : shown.map Results.unpicked = paths.map Results.unpicked) : Durable shown := by
  have hOthers : ∀ i ∈ shown, ∃ i' ∈ paths, Results.unpicked i = Results.unpicked i' :=
    fun i hMem => by
      have hMap : Results.unpicked i ∈ paths.map Results.unpicked :=
        hSame ▸ List.mem_map_of_mem hMem
      obtain ⟨i', hMem', hEqual⟩ := List.mem_map.mp hMap
      exact ⟨i', hMem', hEqual.symm⟩
  refine ⟨fun i hMem => ?_, fun i hMem => ?_, ?_⟩
  · obtain ⟨i', hMem', hEqual⟩ := hOthers i hMem
    obtain ⟨hOrdered, hFits, hUnreserved⟩ := h.carried i' hMem'
    have hRest : i.others = i'.others := congrArg (fun i => i.others) hEqual
    exact ⟨hRest ▸ hOrdered, hRest ▸ hFits, hRest ▸ hUnreserved⟩
  · obtain ⟨i', hMem', hEqual⟩ := hOthers i hMem
    have hNumbers : i.value.numbers = i'.value.numbers :=
      congrArg (fun i => i.value.numbers) hEqual
    exact fun n hNumber => h.legible i' hMem' n (hNumbers ▸ hNumber)
  · have hLength := congrArg List.length hSame
    rw [List.length_map, List.length_map] at hLength
    exact hLength ▸ h.countable

end Itinerary

/-! ## Runs -/

namespace Planner

/-- What a planner shows, some answer has brought, up to the marks. -/
theorem shown_run {p : Planner} (hStart : p.results.paths = []) (events : List Event) :
    (p.run events).results.paths = [] ∨ ∃ r paths, Event.routes r (.ok paths) ∈ events ∧
      (p.run events).results.paths.map Results.unpicked = paths.map Results.unpicked := by
  refine history_induction (P := fun events p' => p'.results.paths = [] ∨
    ∃ r paths, Event.routes r (.ok paths) ∈ events ∧
      p'.results.paths.map Results.unpicked = paths.map Results.unpicked) (.inl hStart) ?_ events
  intro events e ih
  -- An answer stays what it was when further events come.
  have hSame : ((p.run events).update e).planner.results.paths.map Results.unpicked =
      (p.run events).results.paths.map Results.unpicked →
      ((p.run events).update e).planner.results.paths = [] ∨
        ∃ r paths, Event.routes r (.ok paths) ∈ events ++ [e] ∧
          ((p.run events).update e).planner.results.paths.map Results.unpicked =
            paths.map Results.unpicked := by
    intro hSame
    rcases ih with hNone | ⟨r, paths, hMem, hPaths⟩
    · rw [hNone, List.map_nil, List.map_eq_nil_iff] at hSame
      exact .inl hSame
    · exact .inr ⟨r, paths, List.mem_append_left _ hMem, hSame.trans hPaths⟩
  cases update_turn (p.run events) e with
  | kept hResults _ => exact hSame (by rw [hResults])
  | asked _ hResults _ => exact hSame (by rw [hResults])
  | sent r _ _ hResults _ =>
    rw [hResults] at hSame ⊢
    by_cases hKeeps : (p.run events).requests.keepsPaths = true
    · exact hSame (by simp [Requests.sent, Results.fetching, hKeeps])
    · exact .inl (by simp [Requests.sent, Results.fetching, hKeeps])
  | settled r a hEvent _ hResults _ =>
    rw [hResults]
    cases a with
    | error fault => exact .inl rfl
    | ok paths =>
      exact .inr ⟨r, paths, by simp [hEvent], Results.map_unpicked_succeeded r paths⟩
  | picked _ _ hPick _ => exact hSame (SelectionRule.pick_eq_ok hPick).2.2.2

theorem durable_run {p : Planner} (hStart : p.results.paths = []) {events : List Event}
    (hAnswers : ∀ r paths, .routes r (.ok paths) ∈ events → Itinerary.Durable paths) :
    Itinerary.Durable (p.run events).results.paths := by
  rcases shown_run hStart events with hNone | ⟨r, paths, hMem, hPaths⟩
  · rw [hNone]
    exact Itinerary.durable_nil
  · exact (hAnswers r paths hMem).of_map_unpicked hPaths

/-- **Results survive their own text up to the mark of the pick.** After every run whose answers can
be written, the text of the results is read as the same results without a mark: request, progress,
itineraries in order with all that they carry, and the index of the pick are the same, and so is
the picked itinerary but for its mark. The results are read as they are exactly if no itinerary is
picked; so they are before the first request and after a failed one. -/
theorem survival {c : Configuration} {location : Url} {now : Instant} {p : Planner}
    (hStart : start c location now = .ok p) {events : List Event}
    (hAnswers : ∀ r paths, .routes r (.ok paths) ∈ events → Itinerary.Durable paths) :
    Json.read? Results.shape (p.run events).results.value.compact =
        some (p.run events).results.unmarked ∧
      (p.run events).results.unmarked.selection = (p.run events).results.selection ∧
      (p.run events).results.unmarked.selectedPath =
        (p.run events).results.selectedPath.map Results.unpicked ∧
      (Json.read? Results.shape (p.run events).results.value.compact =
          some (p.run events).results ↔ (p.run events).results.selection = none) ∧
      ((p.run events).results.progress = .idle ∨ (p.run events).results.progress = .failed →
        Json.read? Results.shape (p.run events).results.value.compact =
          some (p.run events).results) := by
  have hPaths : p.results.paths = [] := by rw [(start_inert hStart).2]; rfl
  have hDurable := durable_run hPaths hAnswers
  obtain ⟨hMarked, hBare, -⟩ := picked_run (picked_start hStart) events
  generalize (p.run events).results = r at hDurable hMarked hBare
  have hSelected := Results.fitsSigned_selected hMarked hDurable.countable
  have hRead := Results.read?_value hDurable.carried hSelected
    (Results.legible_value hDurable.legible hSelected)
  have hSame : Json.read? Results.shape r.value.compact = some r ↔ r.selection = none := by
    rw [hRead, Option.some.injEq, Results.unmarked_eq_iff hMarked]
  refine ⟨hRead, r.selection_unmarked, r.selectedPath_unmarked, hSame, fun hOver => ?_⟩
  rw [hSame]
  -- Without itineraries none can be picked.
  rcases hMarked with ⟨hNone, -⟩ | ⟨k, hLength, -, -⟩
  · exact Results.selection_of_noSelection hNone
  · rw [hBare hOver] at hLength
    cases hLength

/-- The answer of one itinerary, as a server writes it. -/
theorem durable_usual : Itinerary.Durable [.plain true] := by
  have hLegible : (Itinerary.plain true).value.Legible := by
    simp [Itinerary.plain, Itinerary.value, Value.legible_record]
  have hAnswer : (Itinerary.answerValue [.plain true]).Legible := by
    simpa [Itinerary.answerValue, Value.legible_record, Value.legible_list] using hLegible
  have hCarried : (Itinerary.plain true).Carried (Reading.document.depth - 3) :=
    ⟨List.Pairwise.nil, nofun, nofun⟩
  exact Itinerary.durable_of_read
    (Itinerary.read?_answerValue (List.forall_mem_singleton.mpr hCarried) hAnswer)
    (List.forall_mem_singleton.mpr hLegible) (by decide)

theorem results_usual {r : String}
    (hRequest : (usual.run [.info (.ok usualServer), .edit usualTrip]).request = some r) :
    (usual.run ([.info (.ok usualServer), .edit usualTrip] ++
      [.routes r (.ok [.plain true])])).results = ⟨some r, .succeeded, [⟨true, true, []⟩], 0⟩ := by
  rw [run_concat, update_routes_of_eq hRequest]
  rfl

/-- The itinerary that comes to the usual planner is picked, and the results are read without its
mark. -/
theorem survival_usual : ∃ r,
    (usual.run [.info (.ok usualServer), .edit usualTrip]).request = some r ∧
      Json.read? Results.shape (usual.run ([.info (.ok usualServer), .edit usualTrip] ++
        [.routes r (.ok [.plain true])])).results.value.compact =
          some ⟨some r, .succeeded, [.plain true], 0⟩ := by
  obtain ⟨r, hRequest⟩ : ∃ r,
      (usual.run [.info (.ok usualServer), .edit usualTrip]).request = some r :=
    exists_request (by decide +kernel)
  refine ⟨r, hRequest, ?_⟩
  have hAnswers : ∀ r' paths, Event.routes r' (.ok paths) ∈
      [.info (.ok usualServer), .edit usualTrip] ++ [.routes r (.ok [.plain true])] →
        Itinerary.Durable paths := by
    intro r' paths hMem
    obtain ⟨-, rfl⟩ : r' = r ∧ paths = [.plain true] := by simpa using hMem
    exact durable_usual
  rw [(survival start_usual hAnswers).1, results_usual hRequest]
  rfl

/-- So the results of the usual planner are not read as they are. -/
theorem not_survival_usual : ∃ r,
    (usual.run [.info (.ok usualServer), .edit usualTrip]).request = some r ∧
      Json.read? Results.shape (usual.run ([.info (.ok usualServer), .edit usualTrip] ++
        [.routes r (.ok [.plain true])])).results.value.compact ≠
          some (usual.run ([.info (.ok usualServer), .edit usualTrip] ++
            [.routes r (.ok [.plain true])])).results := by
  obtain ⟨r, hRequest⟩ : ∃ r,
      (usual.run [.info (.ok usualServer), .edit usualTrip]).request = some r :=
    exists_request (by decide +kernel)
  refine ⟨r, hRequest, ?_⟩
  have hPaths : ∀ i ∈ [(⟨true, true, []⟩ : Itinerary)],
      i.Carried (Reading.document.depth - 3) := by
    refine List.forall_mem_singleton.mpr ⟨List.Pairwise.nil, nofun, nofun⟩
  have hLegible : (Results.mk (some r) .succeeded [⟨true, true, []⟩] 0).value.Legible :=
    Results.legible_value (by simp [Itinerary.value, Value.legible_record]) rfl
  rw [results_usual hRequest, Results.read?_value hPaths rfl hLegible]
  simp [Results.unmarked, Results.unpicked]

end Planner

end TripPlanner
