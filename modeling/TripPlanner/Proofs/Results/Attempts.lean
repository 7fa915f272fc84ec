import TripPlanner.Proofs.Planner.Events
import TripPlanner.Proofs.Results.Picks

/-!
# Picks in a row

A pick that is refused leaves the results as they are, so picks may be attempted one after the other
(`SelectionRule.attempts`); this is what a planner does whose user picks itineraries
(`Planner.results_run_select`). Attempts leave no trace: whether one is accepted depends on the
itineraries up to their marks (`SelectionRule.judged`), and the last accepted one decides where the
mark is, as if it were the only one (`SelectionRule.last_accepted`).

The reason is that a pick clears the mark at the old index only, but then no mark is left, whichever
itinerary was picked before (`SelectionRule.move_eq`).
-/

namespace TripPlanner

namespace SelectionRule

open Results

/-! ## Picks that are accepted -/

/-- Whether an index may be picked among some itineraries. -/
def accepts (rule : SelectionRule) (paths : List Itinerary) (index : Nat) : Bool :=
  paths[index]?.any fun i => rule ≠ .feasibleOnly || i.isPossible

theorem accepts_eq_true_iff {rule : SelectionRule} {paths : List Itinerary} {index : Nat} :
    rule.accepts paths index = true ↔ ∃ i, paths[index]? = some i ∧
      ¬ (rule = .feasibleOnly ∧ i.isPossible = false) := by
  simp only [accepts, Option.any_eq_true, Bool.or_eq_true, decide_eq_true_eq, not_and_or,
    Bool.not_eq_false]

/-- Marks have no part in what is accepted. -/
theorem accepts_congr {paths paths' : List Itinerary}
    (h : paths.map unpicked = paths'.map unpicked) (rule : SelectionRule) (index : Nat) :
    rule.accepts paths index = rule.accepts paths' index := by
  have hUnpicked : ∀ paths : List Itinerary,
      rule.accepts (paths.map unpicked) index = rule.accepts paths index := by
    intro paths
    rw [accepts, accepts, List.getElem?_map, Option.any_map]
    rfl
  rw [← hUnpicked paths, h, hUnpicked paths']

theorem lt_length_of_accepts {rule : SelectionRule} {paths : List Itinerary} {index : Nat}
    (h : rule.accepts paths index = true) : index < paths.length := by
  obtain ⟨i, hi, -⟩ := accepts_eq_true_iff.mp h
  exact (List.getElem?_eq_some_iff.mp hi).1

theorem pick_of_accepts {rule : SelectionRule} {r : Results} {index : Nat}
    (h : rule.accepts r.paths index = true) : rule.pick r index = .ok (move r index) := by
  obtain ⟨i, hi, hAllowed⟩ := accepts_eq_true_iff.mp h
  exact pick_eq_ok_iff.mpr ⟨i, hi, hAllowed, rfl⟩

/-- What is said to a pick: there is no such itinerary, it is not possible although it has to be, or
the pick is accepted. Each is said exactly where it is so. -/
structure Judged (rule : SelectionRule) (paths : List Itinerary) (r : Results) (index : Nat) :
    Prop where
  outOfRange : rule.pick r index = .error (.selectionOutOfRange index paths.length) ↔
    paths.length ≤ index
  infeasible : rule.pick r index = .error (.infeasibleSelection index) ↔
    ∃ i, paths[index]? = some i ∧ rule = .feasibleOnly ∧ i.isPossible = false
  accepted : (∃ r', rule.pick r index = .ok r') ↔ rule.accepts paths index = true

theorem judged_self (rule : SelectionRule) (r : Results) (index : Nat) :
    rule.Judged r.paths r index := by
  cases hTarget : r.paths[index]? with
  | none =>
    have hPick : rule.pick r index = .error (.selectionOutOfRange index r.paths.length) := by
      simp only [pick, hTarget]
    have hOutside := List.getElem?_eq_none_iff.mp hTarget
    constructor
    · simp [hPick, hOutside]
    · simp [hPick, hTarget]
    · simp [hPick, accepts, hTarget]
  | some i =>
    have hInside := (List.getElem?_eq_some_iff.mp hTarget).1
    by_cases hRefused : rule = .feasibleOnly ∧ i.isPossible = false
    · obtain ⟨rfl, hImpossible⟩ := hRefused
      have hPick : pick .feasibleOnly r index = .error (.infeasibleSelection index) := by
        simp [pick, hTarget, hImpossible]
      constructor
      · simp [hPick, hInside]
      · simp [hPick, hTarget, hImpossible]
      · simp [hPick, accepts, hTarget, hImpossible]
    · have hPick : rule.pick r index = .ok (move r index) :=
        pick_of_accepts (accepts_eq_true_iff.mpr ⟨i, hTarget, hRefused⟩)
      constructor
      · simp [hPick, hInside]
      · simpa [hPick, hTarget] using hRefused
      · simp [hPick, accepts_eq_true_iff.mpr ⟨i, hTarget, hRefused⟩]

/-- A pick is judged by the itineraries up to their marks. -/
theorem judged {paths : List Itinerary} {r : Results}
    (h : r.paths.map unpicked = paths.map unpicked) (rule : SelectionRule) (index : Nat) :
    rule.Judged paths r index := by
  have hLength : r.paths.length = paths.length := by
    simpa using congrArg List.length h
  have hPossible : (r.paths[index]?).map Itinerary.isPossible =
      (paths[index]?).map Itinerary.isPossible := by
    have hAt := congrArg (fun l : List Itinerary => (l[index]?).map Itinerary.isPossible) h
    simpa [Function.comp_def, unpicked] using hAt
  obtain ⟨hOut, hInfeasible, hAccepted⟩ := judged_self rule r index
  refine ⟨hLength ▸ hOut, ?_, accepts_congr h rule index ▸ hAccepted⟩
  have hImpossible : ∀ paths : List Itinerary,
      (∃ i, paths[index]? = some i ∧ rule = .feasibleOnly ∧ i.isPossible = false) ↔
        rule = .feasibleOnly ∧ (paths[index]?).map Itinerary.isPossible = some false := by
    intro paths
    rw [Option.map_eq_some_iff]
    grind
  rw [hInfeasible, hImpossible, hImpossible, hPossible]

/-! ## One mark -/

theorem eq_map_unpicked {paths : List Itinerary} (h : ∀ i ∈ paths, i.isSelected = false) :
    paths = paths.map unpicked := by
  refine (List.map_id _).symm.trans (List.map_congr_left fun i hi => ?_)
  rw [id, unpicked, ← h i hi]

theorem map_unpicked_released (r : Results) : (match r.selection with
    | some old => r.paths.modify old unpicked
    | none => r.paths).map unpicked = r.paths.map unpicked := by
  cases r.selection with
  | none => rfl
  | some old => exact map_unpicked_modify unpicked_unpicked r.paths old

/-- Picking leaves one mark, wherever there was one before. -/
theorem move_eq {r : Results} (h : r.Marked) (index : Nat) :
    move r index = { r with
      paths := (r.paths.map unpicked).modify index fun i => { i with isSelected := true }
      selected := index } := by
  have hReleased := (eq_map_unpicked fun _ => unmarked_released h).trans (map_unpicked_released r)
  exact congrArg (fun released => { r with
    paths := released.modify index fun i => { i with isSelected := true }
    selected := index }) hReleased

theorem map_unpicked_move {r : Results} (h : r.Marked) (index : Nat) :
    (move r index).paths.map unpicked = r.paths.map unpicked := by
  rw [move_eq h, map_unpicked_modify unpicked_marked, List.map_map]
  exact List.map_congr_left fun i _ => unpicked_unpicked i

/-- A pick does away with what an earlier one has done. -/
theorem move_move {r : Results} (h : r.Marked) {index : Nat} (hIndex : index < r.paths.length)
    (later : Nat) : move (move r index) later = move r later := by
  have hMarked : (move r index).Marked :=
    marked_of_modify (fun _ => isSelected_of_mem_map_unpicked) (by simpa using hIndex)
      (congrArg paths (move_eq h index)) rfl
  rw [move_eq hMarked, map_unpicked_move h, move_eq h later]
  rfl

/-! ## Attempts -/

/-- The results after an attempt to pick an itinerary. A refused one leaves them as they are. -/
def attempt (rule : SelectionRule) (r : Results) (index : Nat) : Results :=
  (rule.pick r index).toOption.getD r

theorem attempt_cases (rule : SelectionRule) (r : Results) (index : Nat) :
    rule.attempt r index = r ∨ rule.pick r index = .ok (rule.attempt r index) := by
  unfold attempt
  cases rule.pick r index with
  | error failure => exact Or.inl rfl
  | ok picked => exact Or.inr rfl

theorem attempt_request (rule : SelectionRule) (r : Results) (index : Nat) :
    (rule.attempt r index).request = r.request := by
  rcases rule.attempt_cases r index with hSame | hPick
  · rw [hSame]
  · exact (pick_eq_ok hPick).2.1

theorem attempt_progress (rule : SelectionRule) (r : Results) (index : Nat) :
    (rule.attempt r index).progress = r.progress := by
  rcases rule.attempt_cases r index with hSame | hPick
  · rw [hSame]
  · exact (pick_eq_ok hPick).2.2.1

/-- Results after attempts in a row. -/
def attempts (rule : SelectionRule) (r : Results) (indexes : List Nat) : Results :=
  indexes.foldl rule.attempt r

theorem attempts_concat (rule : SelectionRule) (r : Results) (indexes : List Nat) (index : Nat) :
    rule.attempts r (indexes ++ [index]) = rule.attempt (rule.attempts r indexes) index := by
  simp [attempts]

theorem attempt_eq (rule : SelectionRule) (r : Results) (index : Nat) :
    rule.attempt r index = if rule.accepts r.paths index then move r index else r := by
  split
  case isTrue hAccepted => rw [attempt, pick_of_accepts hAccepted]; rfl
  case isFalse hRefused =>
    refine (rule.attempt_cases r index).resolve_right fun hPick => hRefused ?_
    exact (judged_self rule r index).accepted.mp ⟨_, hPick⟩

/-- The index that is accepted last among some itineraries. -/
def lastAccepted (rule : SelectionRule) (paths : List Itinerary) (indexes : List Nat) :
    Option Nat :=
  (indexes.filter (rule.accepts paths)).getLast?

theorem lastAccepted_concat (rule : SelectionRule) (paths : List Itinerary) (indexes : List Nat)
    (index : Nat) : rule.lastAccepted paths (indexes ++ [index]) =
      if rule.accepts paths index then some index else rule.lastAccepted paths indexes := by
  rw [lastAccepted, lastAccepted, List.filter_append, List.getLast?_append]
  cases hAccepted : rule.accepts paths index <;> simp [hAccepted]

theorem accepts_of_lastAccepted {rule : SelectionRule} {paths : List Itinerary}
    {indexes : List Nat} {index : Nat} (h : rule.lastAccepted paths indexes = some index) :
    rule.accepts paths index = true :=
  (List.mem_filter.mp (List.mem_of_getLast? h)).2

theorem attempts_eq {r : Results} (h : r.Marked) (rule : SelectionRule) (indexes : List Nat) :
    rule.attempts r indexes =
      match rule.lastAccepted r.paths indexes with
      | none => r
      | some index => move r index := by
  -- What was picked so far matters neither for what is accepted next nor for what it leads to.
  induction indexes using List.reverseRecOn with
  | nil => rfl
  | append_singleton indexes index ih =>
    rw [attempts_concat, lastAccepted_concat, ih]
    cases hLast : rule.lastAccepted r.paths indexes with
    | none =>
      rw [attempt_eq]
      cases rule.accepts r.paths index <;> rfl
    | some old =>
      have hOld := lt_length_of_accepts (accepts_of_lastAccepted hLast)
      rw [attempt_eq, accepts_congr (map_unpicked_move h old) rule index, move_move h hOld]
      cases rule.accepts r.paths index <;> rfl

end SelectionRule

namespace Planner

theorem update_select (p : Planner) (index : Nat) :
    (p.update (.select index)).planner.results = p.rule.attempt p.results index := by
  simp only [update, select, SelectionRule.attempt]
  cases p.rule.pick p.results index with
  | error failure => rfl
  | ok results => rfl

/-- A planner whose user picks itineraries attempts these picks. -/
theorem results_run_select (p : Planner) (indexes : List Nat) :
    (p.run (indexes.map .select)).results = p.rule.attempts p.results indexes := by
  induction indexes using List.reverseRecOn with
  | nil => rfl
  | append_singleton indexes index ih =>
    rw [List.map_append, List.map_singleton, run_concat, update_select, run_rule, ih,
      SelectionRule.attempts_concat]

end Planner

namespace SelectionRule

open Results

/-- **The last accepted pick counts.** An answer is shown with its first possible itinerary picked,
and then picks are attempted in a row. Whatever was attempted before, a pick is refused for its
index, with the number of itineraries, exactly if there is no such itinerary; or else for the
itinerary, exactly if it is not possible and the rule asks for that. If no pick was accepted, the
results are as they were, and if some were, they are those of the last one alone. The itineraries
stay the same up to their marks. A planner whose user picks itineraries does just this. -/
theorem last_accepted (rule : SelectionRule) (request : String) (paths : List Itinerary)
    (indexes : List Nat) :
    let r := succeeded request paths
    (∀ index, rule.Judged paths (rule.attempts r indexes) index) ∧
      (rule.lastAccepted paths indexes = none → rule.attempts r indexes = r) ∧
      (∀ index, rule.lastAccepted paths indexes = some index →
        rule.pick r index = .ok (rule.attempts r indexes)) ∧
      (rule.attempts r indexes).paths.map unpicked = paths.map unpicked ∧
      ∀ p : Planner, p.rule = rule → p.results = r →
        (p.run (indexes.map .select)).results = rule.attempts r indexes := by
  intro r
  have hPaths : r.paths.map unpicked = paths.map unpicked := map_unpicked_succeeded request paths
  have hMarked : r.Marked := marked_succeeded request paths
  have hAttempts := attempts_eq hMarked rule indexes
  have hLast : rule.lastAccepted r.paths indexes = rule.lastAccepted paths indexes := by
    rw [lastAccepted, lastAccepted, funext (accepts_congr hPaths rule)]
  rw [hLast] at hAttempts
  have hKept : (rule.attempts r indexes).paths.map unpicked = paths.map unpicked := by
    rw [hAttempts]
    cases rule.lastAccepted paths indexes with
    | none => exact hPaths
    | some index => exact (map_unpicked_move hMarked index).trans hPaths
  refine ⟨judged hKept rule, fun hNone => ?_, fun index hSome => ?_, hKept, fun p hRule hResults => ?_⟩
  · rw [hAttempts, hNone]
  · rw [hAttempts, hSome]
    refine pick_of_accepts ?_
    rw [accepts_congr hPaths]
    exact accepts_of_lastAccepted hSome
  · rw [Planner.results_run_select, hRule, hResults]

/-- Of three itineraries the second is picked at first. The third is picked, then one that is not
there and one that is not possible are refused. -/
theorem last_accepted_usual :
    let paths : List Itinerary := [.plain false, .plain true, .plain true]
    let r := succeeded "r" paths
    pick .feasibleOnly r 2 = .ok (attempts .feasibleOnly r [1, 2, 3, 0]) := by
  intro paths r
  obtain ⟨-, -, hSome, -, -⟩ := last_accepted .feasibleOnly "r" paths [1, 2, 3, 0]
  exact hSome 2 (by decide)

end SelectionRule

end TripPlanner
