import TripPlanner.Query.Edit

/-!
# What edits change and leave alone

An edit reports what it changed, and the report can be trusted: where it says that nothing changed,
the query is the one before (`apply_of_not_any`), and where it says that the auxiliary distance is a
new one, it is (`auxiliary_and_isSome_iff`). An edit that clears no endpoint never makes a complete
query incomplete (`isComplete_apply`).
-/

namespace TripPlanner

theorem assign_of_unchanged {α : Type} {same : α → α → Bool} {old : α} {new : Option α}
    (h : (assign same old new).2 = false) : (assign same old new).1 = old := by
  cases new with
  | none => rfl
  | some a =>
    simp only [assign] at h ⊢
    split at h
    · rename_i hSame
      rw [if_pos hSame]
    · cases h

theorem assign_of_changed {α : Type} {same : α → α → Bool} {old : α} {new : Option α}
    (h : (assign same old new).2 = true) :
    new = some (assign same old new).1 ∧ same (assign same old new).1 old = false := by
  cases new with
  | none => cases h
  | some a =>
    simp only [assign] at h ⊢
    split at h
    · cases h
    · rename_i hOther
      rw [if_neg hOther]
      exact ⟨rfl, (Bool.not_eq_true _).mp hOther⟩

theorem assign_of_other {α : Type} {same : α → α → Bool} {old a : α}
    (h : same a old = false) : assign same old (some a) = (a, true) := by
  simp [assign, h]

theorem assign_eq_or {α : Type} (same : α → α → Bool) (old : α) (new : Option α) :
    (assign same old new).1 = old ∨ new = some (assign same old new).1 := by
  cases new with
  | none => exact Or.inl rfl
  | some a =>
    simp only [assign]
    split
    · exact Or.inl rfl
    · exact Or.inr rfl

/-- All of a query but its auxiliary distance. -/
def Query.withoutDistance (q : Query) : Query := { q with auxiliaryDistance := none }

/-- No endpoint is cleared. -/
def Edit.KeepsEnds (e : Edit) : Prop := e.origin ≠ some none ∧ e.destination ≠ some none

/-- The auxiliary distance of a query becomes a number that is not the one before. -/
def Edit.SetsDistance (e : Edit) (q : Query) : Prop :=
  ∃ d, e.auxiliaryDistance = some (some d) ∧ (q.apply e).1.auxiliaryDistance = some d ∧
    ∀ old ∈ q.auxiliaryDistance, d.same old = false

theorem Rule.endpoint_isSome {new : Option (Option Coordinate)} {v : Option Coordinate}
    (hKeeps : new ≠ some none) (h : accepted endpoint new = some v) : v.isSome := by
  obtain ⟨c, hNew, hRule⟩ := Option.bind_eq_some_iff.mp h
  cases c with
  | none => exact absurd hNew hKeeps
  | some c =>
    simp only [endpoint] at hRule
    cases hChecked : Coordinate.checked c.lat c.lon with
    | error refusal =>
      rw [hChecked] at hRule
      cases hRule
    | ok place =>
      rw [hChecked] at hRule
      cases hRule
      rfl

namespace Query

theorem apply_change (q : Query) (e : Edit) :
    (q.apply e).2 =
      ⟨(assign (sameOption Coordinate.same) q.origin (Rule.accepted Rule.endpoint e.origin)).2 ||
          (assign (sameOption Coordinate.same) q.destination
            (Rule.accepted Rule.endpoint e.destination)).2 ||
          (assign (· == ·) q.time (e.time.map Instant.wholeSecond)).2 ||
          (assign (· == ·) q.timeMode e.timeMode).2 ||
          (assign (· == ·) q.accessProfile (Rule.accepted Rule.profile e.accessProfile)).2 ||
          (assign (· == ·) q.egressProfile (Rule.accepted Rule.profile e.egressProfile)).2 ||
          (assign Binary64.same q.accessWeight (Rule.accepted Rule.weight e.accessWeight)).2 ||
          (assign Binary64.same q.egressWeight (Rule.accepted Rule.weight e.egressWeight)).2 ||
          (assign (· == ·) q.rangeQuery e.rangeQuery).2 ||
          (assign (· == ·) q.rangeSpan e.rangeSpan).2 ||
          (assign (· == ·) q.streetLimit e.streetLimit).2 ||
          (assign (· == ·) q.ignoreTransfers e.ignoreTransfers).2,
        (assign (sameOption Binary64.same) q.auxiliaryDistance e.auxiliaryDistance).2⟩ := rfl

theorem apply_query (q : Query) (e : Edit) :
    (q.apply e).1 =
      { origin := (assign (sameOption Coordinate.same) q.origin
          (Rule.accepted Rule.endpoint e.origin)).1
        destination := (assign (sameOption Coordinate.same) q.destination
          (Rule.accepted Rule.endpoint e.destination)).1
        time := (assign (· == ·) q.time (e.time.map Instant.wholeSecond)).1
        timeMode := (assign (· == ·) q.timeMode e.timeMode).1
        accessProfile :=
          (assign (· == ·) q.accessProfile (Rule.accepted Rule.profile e.accessProfile)).1
        egressProfile :=
          (assign (· == ·) q.egressProfile (Rule.accepted Rule.profile e.egressProfile)).1
        accessWeight :=
          (assign Binary64.same q.accessWeight (Rule.accepted Rule.weight e.accessWeight)).1
        egressWeight :=
          (assign Binary64.same q.egressWeight (Rule.accepted Rule.weight e.egressWeight)).1
        rangeQuery := (assign (· == ·) q.rangeQuery e.rangeQuery).1
        rangeSpan := (assign (· == ·) q.rangeSpan e.rangeSpan).1
        streetLimit := (assign (· == ·) q.streetLimit e.streetLimit).1
        ignoreTransfers := (assign (· == ·) q.ignoreTransfers e.ignoreTransfers).1
        auxiliaryDistance :=
          (assign (sameOption Binary64.same) q.auxiliaryDistance e.auxiliaryDistance).1 } := rfl

/-- An edit that reports no change has not changed the query. -/
theorem apply_of_not_any {q : Query} {e : Edit} (h : (q.apply e).2.any = false) :
    (q.apply e).1 = q := by
  simp only [Change.any, apply_change, Bool.or_eq_false_iff] at h
  obtain ⟨⟨⟨⟨⟨⟨⟨⟨⟨⟨⟨⟨h₁, h₂⟩, h₃⟩, h₄⟩, h₅⟩, h₆⟩, h₇⟩, h₈⟩, h₉⟩, h₁₀⟩, h₁₁⟩, h₁₂⟩, h₁₃⟩ := h
  rw [apply_query, assign_of_unchanged h₁, assign_of_unchanged h₂, assign_of_unchanged h₃,
    assign_of_unchanged h₄, assign_of_unchanged h₅, assign_of_unchanged h₆,
    assign_of_unchanged h₇, assign_of_unchanged h₈, assign_of_unchanged h₉,
    assign_of_unchanged h₁₀, assign_of_unchanged h₁₁, assign_of_unchanged h₁₂,
    assign_of_unchanged h₁₃]

/-- An edit reports that it changed the auxiliary distance, and leaves a number, exactly if it sets
another number. -/
theorem auxiliary_and_isSome_iff {q : Query} {e : Edit} :
    (q.apply e).2.auxiliary = true ∧ (q.apply e).1.auxiliaryDistance.isSome ↔
      e.SetsDistance q := by
  have hSame : ∀ d, sameOption Binary64.same (some d) q.auxiliaryDistance = false ↔
      ∀ old ∈ q.auxiliaryDistance, d.same old = false := by
    intro d
    cases q.auxiliaryDistance <;> simp [sameOption]
  constructor
  · rintro ⟨hChanged, hSome⟩
    obtain ⟨d, hd⟩ := Option.isSome_iff_exists.mp hSome
    rw [apply_change] at hChanged
    obtain ⟨hNew, hOther⟩ := assign_of_changed hChanged
    rw [apply_query] at hd
    simp only at hd
    rw [hd] at hNew hOther
    exact ⟨d, hNew, by rw [apply_query]; exact hd, (hSame d).mp hOther⟩
  · rintro ⟨d, hNew, hd, hOther⟩
    refine ⟨?_, by simp [hd]⟩
    rw [apply_change, hNew, assign_of_other ((hSame d).mpr hOther)]

theorem isSome_assign_endpoint {old : Option Coordinate} {new : Option (Option Coordinate)}
    (hKeeps : new ≠ some none) (hOld : old.isSome) :
    (assign (sameOption Coordinate.same) old (Rule.accepted Rule.endpoint new)).1.isSome := by
  rcases assign_eq_or (sameOption Coordinate.same) old (Rule.accepted Rule.endpoint new) with h | h
  · rw [h]
    exact hOld
  · exact Rule.endpoint_isSome hKeeps h

/-- A complete query stays complete unless an endpoint is cleared. -/
theorem isComplete_apply {q : Query} {e : Edit} (hKeeps : e.KeepsEnds) (h : q.isComplete) :
    (q.apply e).1.isComplete := by
  simp only [isComplete, Bool.and_eq_true] at h ⊢
  exact ⟨isSome_assign_endpoint hKeeps.1 h.1, isSome_assign_endpoint hKeeps.2 h.2⟩

end Query

end TripPlanner
