import TripPlanner.Proofs.Results.Paths

/-!
# Which itinerary is picked

Results say twice which itinerary is picked: by an index and by a mark on the itinerary. The two
agree (`Marked`) in all results that are made from marked ones: picking clears the mark at the old
index only, which is enough because there is no other.

* `Results.marked_succeeded`, `Results.foremost_succeeded`: an answer is shown with its first
  possible itinerary picked, whatever marks came with it.
* `SelectionRule.marked_pick`, `SelectionRule.sound_pick`: picking keeps index and marks in
  agreement, and with the rule for possible itineraries only such ones are picked.
-/

namespace TripPlanner

namespace Results

/-- Index and marks agree: nothing is picked and nothing marked, or the index is that of an
itinerary, which is marked and is the only marked one. -/
def Marked (r : Results) : Prop :=
  (r.selected = noSelection ∧ ∀ i ∈ r.paths, i.isSelected = false) ∨
    ∃ k < r.paths.length, r.selected = k ∧
      ∀ j i, r.paths[j]? = some i → (i.isSelected = true ↔ j = k)

/-- The first possible itinerary is picked, or none is possible and none is picked. -/
def Foremost (r : Results) : Prop :=
  (r.selected = noSelection ∧ ∀ i ∈ r.paths, i.isPossible = false) ∨
    ∃ (k : Nat) (i : Itinerary), r.selected = k ∧ r.paths[k]? = some i ∧ i.isPossible = true ∧
      ∀ j < k, ∀ i', r.paths[j]? = some i' → i'.isPossible = false

/-- Itineraries are shown only while a request is on its way or has succeeded. -/
def Bare (r : Results) : Prop := r.progress = .idle ∨ r.progress = .failed → r.paths = []

/-! ## Marks -/

theorem isSelected_of_mem_map_unpicked {paths : List Itinerary} {i : Itinerary}
    (h : i ∈ paths.map unpicked) : i.isSelected = false := by
  obtain ⟨i', -, rfl⟩ := List.mem_map.mp h
  rfl

theorem isPossible_modify {f : Itinerary → Itinerary}
    (hf : ∀ i, (f i).isPossible = i.isPossible) (paths : List Itinerary) (index j : Nat) :
    ((paths.modify index f)[j]?).map Itinerary.isPossible =
      (paths[j]?).map Itinerary.isPossible := by
  rw [List.getElem?_modify]
  cases paths[j]? with
  | none => rfl
  | some i =>
    by_cases h : index = j
    · simp [h, hf]
    · simp [h]

/-- Marking one of some itineraries without marks leaves it the only marked one. -/
theorem isSelected_modify_iff {paths : List Itinerary} {index j : Nat} {i : Itinerary}
    (hNone : ∀ i ∈ paths, i.isSelected = false)
    (h : (paths.modify index fun i => { i with isSelected := true })[j]? = some i) :
    i.isSelected = true ↔ j = index := by
  rw [List.getElem?_modify] at h
  obtain ⟨i', hi', rfl⟩ := Option.map_eq_some_iff.mp h
  by_cases hIndex : index = j
  · simp [hIndex]
  · simp [hIndex, Ne.symm hIndex, hNone i' (List.mem_of_getElem? hi')]

theorem marked_of_modify {r : Results} {paths : List Itinerary} {index : Nat}
    (hNone : ∀ i ∈ paths, i.isSelected = false) (hIndex : index < paths.length)
    (hPaths : r.paths = paths.modify index fun i => { i with isSelected := true })
    (hSelected : r.selected = index) : r.Marked := by
  refine Or.inr ⟨index, by simpa [hPaths] using hIndex, hSelected, fun j i hi => ?_⟩
  rw [hPaths] at hi
  exact isSelected_modify_iff hNone hi

theorem marked_idle : idle.Marked := Or.inl ⟨rfl, nofun⟩

theorem marked_failed (request : String) : (failed request).Marked := Or.inl ⟨rfl, nofun⟩

theorem marked_fetching (request : String) (shown : List Itinerary) :
    (fetching request shown).Marked :=
  Or.inl ⟨rfl, fun _ hi => isSelected_of_mem_map_unpicked hi⟩

/-! ## The first possible itinerary -/

/-- What an answer is shown with: no pick, or a pick of the first possible itinerary. -/
theorem succeeded_cases (request : String) (paths : List Itinerary) :
    ((succeeded request paths).paths = paths.map unpicked ∧
      (succeeded request paths).selected = noSelection ∧
      ∀ i ∈ paths.map unpicked, i.isPossible = false) ∨
    ∃ (k : Nat) (i : Itinerary), (succeeded request paths).paths =
        (paths.map unpicked).modify k (fun i => { i with isSelected := true }) ∧
      (succeeded request paths).selected = k ∧ (paths.map unpicked)[k]? = some i ∧
      i.isPossible = true ∧
      ∀ j < k, ∀ i', (paths.map unpicked)[j]? = some i' → i'.isPossible = false := by
  simp only [succeeded, pickFirst]
  cases hFirst : (paths.map unpicked).findIdx? (·.isPossible) with
  | none => exact Or.inl ⟨rfl, rfl, List.findIdx?_eq_none_iff.mp hFirst⟩
  | some k =>
    obtain ⟨hk, hPossible, hBefore⟩ := List.findIdx?_eq_some_iff_getElem.mp hFirst
    refine Or.inr ⟨k, _, rfl, rfl, List.getElem?_eq_getElem hk, hPossible, fun j hj i' hi' => ?_⟩
    obtain ⟨hLength, rfl⟩ := List.getElem?_eq_some_iff.mp hi'
    simpa using hBefore j hj

theorem marked_succeeded (request : String) (paths : List Itinerary) :
    (succeeded request paths).Marked := by
  rcases succeeded_cases request paths with ⟨hPaths, hNone, -⟩ | ⟨k, i, hPaths, hSelected, hi, -, -⟩
  · exact Or.inl ⟨hNone, fun i hi => isSelected_of_mem_map_unpicked (hPaths ▸ hi)⟩
  · exact marked_of_modify (fun _ => isSelected_of_mem_map_unpicked)
      (List.getElem?_eq_some_iff.mp hi).1 hPaths hSelected

theorem foremost_succeeded (request : String) (paths : List Itinerary) :
    (succeeded request paths).Foremost := by
  rcases succeeded_cases request paths with
    ⟨hPaths, hNone, hImpossible⟩ | ⟨k, i, hPaths, hSelected, hi, hPossible, hBefore⟩
  · exact Or.inl ⟨hNone, hPaths ▸ hImpossible⟩
  · -- Marking an itinerary does not change which ones are possible.
    have hSame : ∀ j : Nat, ((succeeded request paths).paths[j]?).map Itinerary.isPossible =
        ((paths.map unpicked)[j]?).map Itinerary.isPossible := by
      intro j
      rw [hPaths]
      exact isPossible_modify (fun _ => by rfl) _ k j
    have hk := hSame k
    rw [hi, Option.map_some, hPossible] at hk
    obtain ⟨i', hi', hPossible'⟩ := Option.map_eq_some_iff.mp hk
    refine Or.inr ⟨k, i', hSelected, hi', hPossible', fun j hj i₁ hi₁ => ?_⟩
    have hj' := hSame j
    rw [hi₁, Option.map_some] at hj'
    obtain ⟨i₀, hi₀, hEqual⟩ := Option.map_eq_some_iff.mp hj'.symm
    exact hEqual.symm.trans (hBefore j hj i₀ hi₀)

/-! ## The index -/

theorem selection_of_selected {r : Results} {k : Nat} (h : r.selected = k) :
    r.selection = some k := by
  simp [selection, h]

theorem selection_of_noSelection {r : Results} (h : r.selected = noSelection) :
    r.selection = none := by
  simp [selection, h, noSelection]

/-- The picked itinerary of an answer is possible. -/
theorem isPossible_of_foremost {r : Results} (h : r.Foremost) {i : Itinerary}
    (hPath : r.selectedPath = some i) : i.isPossible = true := by
  unfold selectedPath at hPath
  rcases h with ⟨hNone, -⟩ | ⟨k, i', hSelected, hi', hPossible, -⟩
  · rw [selection_of_noSelection hNone] at hPath
    cases hPath
  · rw [selection_of_selected hSelected, Option.bind_some, hi'] at hPath
    cases hPath
    exact hPossible

end Results

namespace SelectionRule

open Results

/-- Before an itinerary is picked, the mark of the one picked so far is cleared, and no mark is
left. -/
theorem unmarked_released {r : Results} (h : r.Marked) {i : Itinerary}
    (hi : i ∈ (match r.selection with
      | some old => r.paths.modify old unpicked
      | none => r.paths)) : i.isSelected = false := by
  rcases h with ⟨hNone, hUnmarked⟩ | ⟨k, -, hSelected, hMarks⟩
  · rw [selection_of_noSelection hNone] at hi
    exact hUnmarked i hi
  · rw [selection_of_selected hSelected] at hi
    obtain ⟨j, hj⟩ := List.mem_iff_getElem?.mp hi
    rw [List.getElem?_modify] at hj
    obtain ⟨i', hi', rfl⟩ := Option.map_eq_some_iff.mp hj
    by_cases hOld : k = j
    · simp [hOld, unpicked]
    · simpa [hOld] using fun hMark => hOld ((hMarks j i' hi').mp hMark).symm

/-- Picking keeps index and marks in agreement. -/
theorem marked_pick {rule : SelectionRule} {r r' : Results} {index : Nat} (h : r.Marked)
    (hPick : rule.pick r index = .ok r') : r'.Marked := by
  obtain ⟨i, hi, -, rfl⟩ := pick_eq_ok_iff.mp hPick
  have hIndex := (List.getElem?_eq_some_iff.mp hi).1
  refine marked_of_modify (fun _ => unmarked_released h) ?_ rfl rfl
  cases r.selection with
  | none => exact hIndex
  | some old => simpa using hIndex

/-- Where only possible itineraries may be picked, the picked one is possible. -/
def Sound (rule : SelectionRule) (r : Results) : Prop :=
  rule = .feasibleOnly → ∀ i, r.selectedPath = some i → i.isPossible = true

theorem sound_pick {rule : SelectionRule} {r r' : Results} {index : Nat}
    (hPick : rule.pick r index = .ok r') : rule.Sound r' := by
  obtain ⟨i, hi, hAllowed, rfl⟩ := pick_eq_ok_iff.mp hPick
  intro hRule i' hPath
  have hPossible : i.isPossible = true :=
    (Bool.not_eq_false _).mp fun hNot => hAllowed ⟨hRule, hNot⟩
  -- Neither clearing nor setting a mark changes which itineraries are possible.
  have hSame : ((move r index).paths[index]?).map Itinerary.isPossible =
      (r.paths[index]?).map Itinerary.isPossible := by
    refine (isPossible_modify (fun _ => by rfl) _ index index).trans ?_
    cases r.selection with
    | none => rfl
    | some old => exact isPossible_modify (fun _ => by rfl) r.paths old index
  have hTarget : (move r index).paths[index]? = some i' := by
    have hSelection : (move r index).selection = some index := selection_of_selected rfl
    rwa [selectedPath, hSelection] at hPath
  rw [hTarget, hi] at hSame
  exact (Option.some.inj hSame).trans hPossible

end SelectionRule

end TripPlanner
