import TripPlanner.Proofs.Link.Base
import TripPlanner.Proofs.Link.RoundTrip

/-!
# Links opened again

A query that starts with settings and takes what a link says has the values of the link, with one
exception: equality of numbers does not tell the two zeros apart (`Binary64.same_finite_iff`), so a
weight that is one zero gives way to a default that is the other. Where that is not so the query
that a link opens is the one the link was made of, its auxiliary distance aside
(`Query.reopened_eq`). A link stays the same when it is opened exactly where that is not so
(`Query.pairs_reopened_iff`).
-/

namespace TripPlanner

namespace Binary64

/-- Two zeros with different signs. -/
def OppositeZeros (x y : Binary64) : Prop :=
  ∃ negative, x = .ofRank negative 0 ∧ y = .ofRank (!negative) 0

instance (x y : Binary64) : Decidable (OppositeZeros x y) :=
  inferInstanceAs (Decidable (∃ negative, x = .ofRank negative 0 ∧ y = .ofRank (!negative) 0))

theorem OppositeZeros.ne {x y : Binary64} (h : OppositeZeros x y) : x ≠ y := by
  obtain ⟨negative, rfl, rfl⟩ := h
  cases negative <;> decide

/-- Equal finite numbers are the same number or zeros with different signs. -/
theorem same_finite_iff {x y : Binary64} (hx : x.isFinite = true) (hy : y.isFinite = true) :
    x.same y = true ↔ x = y ∨ OppositeZeros y x := by
  cases x with
  | infinite negative => cases hx
  | nan => cases hx
  | finite n r =>
    cases y with
    | infinite negative => cases hy
    | nan => cases hy
    | finite m s =>
      have hPlaces : (finite n r).same (finite m s) = true ↔
          (if n then -(r : Int) else r) = (if m then -(s : Int) else s) := by
        simp [same, place]
      rw [hPlaces]
      constructor
      · intro h
        by_cases hSign : n = m
        · subst hSign
          have hRank : r = s := Fin.ext (by cases n <;> simp at h <;> omega)
          exact Or.inl (by rw [hRank])
        · obtain rfl : n = !m := by cases n <;> cases m <;> simp_all
          have hRanks : r.val = 0 ∧ s.val = 0 := by cases m <;> simp at h <;> omega
          have hZero : ∀ {negative : Bool} {rank : Fin ranks}, rank.val = 0 →
              finite negative rank = ofRank negative 0 := fun hRank =>
            congrArg (finite _) (Fin.ext hRank)
          exact Or.inr ⟨m, hZero hRanks.2, hZero hRanks.1⟩
      · rintro (hSame | ⟨negative, hOld, hNew⟩)
        · cases hSame
          rfl
        · cases hOld
          cases hNew
          cases m <;> rfl

/-- A number takes the place of another unless both are zero and only their signs differ. -/
theorem assign_same_eq_iff {old new : Binary64} (hOld : old.isFinite = true)
    (hNew : new.isFinite = true) :
    (assign Binary64.same old (some new)).1 = new ↔ ¬ OppositeZeros old new := by
  simp only [assign]
  split
  case isTrue hSame =>
    rcases (same_finite_iff hNew hOld).mp hSame with rfl | hOpposite
    · exact ⟨fun _ h => h.ne rfl, fun _ => rfl⟩
    · exact ⟨fun h => absurd h hOpposite.ne, fun h => absurd hOpposite h⟩
  case isFalse hSame =>
    exact ⟨fun _ h => hSame ((same_finite_iff hNew hOld).mpr (Or.inr h)), fun _ => rfl⟩

end Binary64

/-! ## Values taken over -/

theorem assign_of_beq {α : Type} [BEq α] [LawfulBEq α] (old new : α) :
    (assign (· == ·) old (some new)).1 = new := by
  simp only [assign]
  split
  case isTrue hSame => exact (eq_of_beq hSame).symm
  case isFalse => rfl

theorem Rule.accepted_of_stable {ε α : Type} {rule : α → Except ε α} {a : α}
    (h : rule a = .ok a) : accepted rule (some a) = some a :=
  accepted_of_forall fun _ hMem => Option.some.inj hMem ▸ h

/-- An endpoint that is known takes the place of none. -/
theorem assign_endpoint {new : Option Coordinate}
    (h : ∀ c ∈ new, Coordinate.checked c.lat c.lon = .ok c) :
    (assign (sameOption Coordinate.same) none (Rule.accepted Rule.endpoint (new.map some))).1 =
      new := by
  cases new with
  | none => rfl
  | some c =>
    have hRule : Rule.endpoint (some c) = .ok (some c) := by
      rw [Rule.endpoint, h c rfl]
      rfl
    rw [Option.map_some, Rule.accepted_of_stable hRule]
    rfl

namespace Query

/-- The query that a link opens under some settings. -/
def reopened (q : Query) (now : Instant) (s : Settings) : Query := ((start now s).apply q.told).1

/-- Under some settings a link loses the sign of a weight of its query that is zero. -/
def LosesSign (q : Query) (s : Settings) : Prop :=
  Binary64.OppositeZeros s.accessWeight q.accessWeight ∨
    Binary64.OppositeZeros s.egressWeight q.egressWeight

instance (q : Query) (s : Settings) : Decidable (q.LosesSign s) :=
  inferInstanceAs (Decidable (_ ∨ _))

theorem reopened_fields {q : Query} (h : q.Valid) (now : Instant) (s : Settings) :
    q.reopened now s =
      { q with
        origin := q.origin.or q.destination
        destination := q.origin.bind fun _ => q.destination
        accessWeight := (assign Binary64.same s.accessWeight (some q.accessWeight)).1
        egressWeight := (assign Binary64.same s.egressWeight (some q.egressWeight)).1
        auxiliaryDistance := none } := by
  have hOrigin : ∀ c ∈ q.origin.or q.destination, Coordinate.checked c.lat c.lon = .ok c := by
    intro c hMem
    rcases Option.or_eq_some_iff.mp hMem with hMem | ⟨-, hMem⟩
    · exact h.origin c hMem
    · exact h.destination c hMem
  have hDestination : ∀ c ∈ q.origin.bind fun _ => q.destination,
      Coordinate.checked c.lat c.lon = .ok c := by
    intro c hMem
    obtain ⟨-, -, hMem⟩ := Option.bind_eq_some_iff.mp hMem
    exact h.destination c hMem
  have hTime := Instant.wholeSecond_of_nanos h.time
  rw [reopened, apply_query]
  simp only [told, start, assign_endpoint hOrigin, assign_endpoint hDestination, Option.map_some,
    assign_of_beq, Rule.accepted_of_stable h.accessProfile, Rule.accepted_of_stable h.egressProfile,
    Rule.accepted_of_stable h.accessWeight, Rule.accepted_of_stable h.egressWeight, hTime]
  rfl

variable {q : Query} {now : Instant} {s : Settings}

theorem valid_reopened (hStart : (start now s).Valid) : (q.reopened now s).Valid :=
  valid_apply hStart _

/-- The weights are taken over exactly where no sign is lost. -/
theorem weights_iff (h : q.Valid) (hStart : (start now s).Valid) :
    (assign Binary64.same s.accessWeight (some q.accessWeight)).1 = q.accessWeight ∧
        (assign Binary64.same s.egressWeight (some q.egressWeight)).1 = q.egressWeight ↔
      ¬ q.LosesSign s := by
  have hAccess : s.accessWeight.isFinite = true := (Rule.weight_eq_ok hStart.accessWeight).2
  have hEgress : s.egressWeight.isFinite = true := (Rule.weight_eq_ok hStart.egressWeight).2
  rw [Binary64.assign_same_eq_iff hAccess (Rule.weight_eq_ok h.accessWeight).2,
    Binary64.assign_same_eq_iff hEgress (Rule.weight_eq_ok h.egressWeight).2, LosesSign, not_or]

/-- Where both ends or none or the origin alone is known, and no sign is lost, a link opens the
query it was made of. -/
theorem reopened_eq (h : q.Valid) (hStart : (start now s).Valid) (hSigns : ¬ q.LosesSign s)
    (hEnds : q.origin.isSome ∨ q.destination = none) :
    q.reopened now s = { q with auxiliaryDistance := none } := by
  obtain ⟨hAccess, hEgress⟩ := (weights_iff h hStart).mpr hSigns
  have hOrigin : q.origin.or q.destination = q.origin := by
    rcases hEnds with hSome | hNone
    · exact Option.or_of_isSome hSome
    · rw [hNone, Option.or_none]
  have hDestination : (q.origin.bind fun _ => q.destination) = q.destination := by
    rcases hEnds with hSome | hNone
    · obtain ⟨c, hc⟩ := Option.isSome_iff_exists.mp hSome
      rw [hc, Option.bind_some]
    · rw [hNone]
      cases q.origin <;> rfl
  rw [reopened_fields h, hAccess, hEgress, hOrigin, hDestination]

/-- A link stays the same when it is opened exactly where no sign is lost. -/
theorem pairs_reopened_iff (f : LinkFormat) (h : q.Valid) (hStart : (start now s).Valid) :
    f.pairs (q.reopened now s) = f.pairs q ↔ ¬ q.LosesSign s := by
  rw [← weights_iff h hStart]
  constructor
  · intro hPairs
    have hTold : (q.reopened now s).told = q.told := by
      rw [← Link.edit_of_pairs (valid_reopened hStart) f, ← Link.edit_of_pairs h f, hPairs]
    rw [reopened_fields h] at hTold
    exact ⟨Option.some.inj (congrArg Edit.accessWeight hTold),
      Option.some.inj (congrArg Edit.egressWeight hTold)⟩
  · rintro ⟨hAccess, hEgress⟩
    have hEnds : [q.origin.or q.destination, q.origin.bind fun _ => q.destination].filterMap id =
        [q.origin, q.destination].filterMap id := by
      cases q.origin <;> cases q.destination <;> rfl
    rw [reopened_fields h, hAccess, hEgress]
    simp only [LinkFormat.pairs, hEnds]

end Query

end TripPlanner
