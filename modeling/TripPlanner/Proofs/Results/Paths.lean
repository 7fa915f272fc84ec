import TripPlanner.Planner.Requests

/-!
# Itineraries up to the pick

Picking an itinerary moves marks and nothing else. Up to the marks (`Results.unpicked`), results
show the itineraries that an answer brought, whichever one is picked.
-/

namespace TripPlanner

namespace Results

@[simp] theorem unpicked_unpicked (i : Itinerary) : unpicked (unpicked i) = unpicked i := rfl

@[simp] theorem unpicked_marked (i : Itinerary) :
    unpicked { i with isSelected := true } = unpicked i := rfl

/-- Changing the marks of one itinerary leaves the itineraries as they are up to the marks. -/
theorem map_unpicked_modify {f : Itinerary → Itinerary} (hf : ∀ i, unpicked (f i) = unpicked i)
    (paths : List Itinerary) (index : Nat) :
    (paths.modify index f).map unpicked = paths.map unpicked := by
  apply List.ext_getElem?
  intro k
  simp only [List.getElem?_map, List.getElem?_modify]
  cases paths[k]? with
  | none => rfl
  | some i =>
    by_cases h : index = k
    · simp [h, hf]
    · simp [h]

theorem map_unpicked_pickFirst (paths : List Itinerary) :
    (pickFirst paths).1.map unpicked = paths.map unpicked := by
  have hTwice : (paths.map unpicked).map unpicked = paths.map unpicked := by
    rw [List.map_map]
    exact List.map_congr_left fun i _ => unpicked_unpicked i
  simp only [pickFirst]
  split
  · exact (map_unpicked_modify unpicked_marked _ _).trans hTwice
  · exact hTwice

theorem map_unpicked_succeeded (request : String) (paths : List Itinerary) :
    (succeeded request paths).paths.map unpicked = paths.map unpicked :=
  map_unpicked_pickFirst paths

end Results

namespace Requests

@[simp] theorem sent_request (s : Requests) (results : Results) (r : String) :
    (s.sent results r).request = some r := rfl

@[simp] theorem sent_progress (s : Requests) (results : Results) (r : String) :
    (s.sent results r).progress = .fetching := rfl

@[simp] theorem settle_request (r : String) (a : RoutesAnswer) :
    (settle r a).request = some r := by
  cases a <;> rfl

theorem settle_progress (r : String) (a : RoutesAnswer) :
    (settle r a).progress = .succeeded ∨ (settle r a).progress = .failed := by
  cases a with
  | ok paths => exact Or.inl rfl
  | error fault => exact Or.inr rfl

theorem settle_progress_ne_fetching (r : String) (a : RoutesAnswer) :
    (settle r a).progress ≠ .fetching := by
  rcases settle_progress r a with h | h <;> simp [h]

theorem settle_progress_ne_idle (r : String) (a : RoutesAnswer) :
    (settle r a).progress ≠ .idle := by
  rcases settle_progress r a with h | h <;> simp [h]

end Requests

namespace SelectionRule

theorem pick_eq_ok_iff {rule : SelectionRule} {r r' : Results} {index : Nat} :
    rule.pick r index = .ok r' ↔ ∃ i, r.paths[index]? = some i ∧
      ¬ (rule = .feasibleOnly ∧ i.isPossible = false) ∧ r' = move r index := by
  unfold pick
  cases hTarget : r.paths[index]? with
  | none => simp
  | some i =>
    by_cases hRefused : rule = .feasibleOnly ∧ i.isPossible = false
    · simp [hRefused]
    · simp only [Bool.not_eq_true', if_neg hRefused, Except.ok.injEq, Option.some.injEq,
        exists_eq_left']
      exact ⟨fun h => ⟨hRefused, h.symm⟩, fun h => h.2.symm⟩

/-- A pick that succeeds is of an itinerary that is there, and moves marks only. -/
theorem pick_eq_ok {rule : SelectionRule} {r r' : Results} {index : Nat}
    (h : rule.pick r index = .ok r') :
    index < r.paths.length ∧ r'.request = r.request ∧ r'.progress = r.progress ∧
      r'.paths.map Results.unpicked = r.paths.map Results.unpicked := by
  obtain ⟨i, hi, -, rfl⟩ := pick_eq_ok_iff.mp h
  refine ⟨(List.getElem?_eq_some_iff.mp hi).1, rfl, rfl, ?_⟩
  refine (Results.map_unpicked_modify Results.unpicked_marked _ _).trans ?_
  cases r.selection with
  | none => rfl
  | some old => exact Results.map_unpicked_modify Results.unpicked_unpicked _ _

end SelectionRule

end TripPlanner
