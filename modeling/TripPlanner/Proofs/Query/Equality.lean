import TripPlanner.Proofs.Query.Edits

/-!
# Equality as edits see it

Edits compare numbers by what they are worth: the two zeros are equal, and what is not a number
equals nothing, itself included. Such a comparison is symmetric and transitive (`Equates`), and it
is reflexive where there is a number (`Binary64.same_self_iff`).

* `Taken`: a field has the value that is said, as far as the comparison can tell, or stays as it is.
* `taken_assign`, `Taken.or`: what an assignment does to a field, and what two in a row do.
* `Taken.unique`: what is said settles the field, as far as the comparison can tell.
* `Query.same`: queries are equal in all their fields.
-/

namespace TripPlanner

/-- A comparison that is symmetric and transitive; it need not hold of a value and itself. -/
structure Equates {α : Type} (same : α → α → Bool) : Prop where
  symm : ∀ {a b}, same a b = true → same b a = true
  trans : ∀ {a b c}, same a b = true → same b c = true → same a c = true

theorem equates_beq {α : Type} [BEq α] [LawfulBEq α] : Equates (fun a b : α => a == b) where
  symm h := beq_iff_eq.mpr (beq_iff_eq.mp h).symm
  trans h h' := beq_iff_eq.mpr ((beq_iff_eq.mp h).trans (beq_iff_eq.mp h'))

theorem Equates.option {α : Type} {same : α → α → Bool} (h : Equates same) :
    Equates (sameOption same) where
  symm {a b} hSame := by
    cases a with
    | none => cases b <;> exact hSame
    | some a =>
      cases b with
      | none => cases hSame
      | some b => exact h.symm hSame
  trans {a b c} hSame hSame' := by
    cases b with
    | none =>
      cases a with
      | none => exact hSame'
      | some a => cases hSame
    | some b =>
      cases a with
      | none => cases hSame
      | some a =>
        cases c with
        | none => cases hSame'
        | some c => exact h.trans hSame hSame'

theorem sameOption_self_iff {α : Type} {same : α → α → Bool} {a : Option α} :
    sameOption same a a = true ↔ ∀ x ∈ a, same x x = true := by
  cases a <;> simp [sameOption]

/-! ## Numbers and coordinates -/

namespace Binary64

theorem same_iff {x y : Binary64} :
    x.same y = true ↔ ∃ place, x.place = some place ∧ y.place = some place := by
  unfold same
  cases x.place with
  | none => simp
  | some i =>
    cases y.place with
    | none => simp
    | some j => simp only [beq_iff_eq, Option.some.injEq, exists_eq_left', eq_comm (a := j)]

theorem equates_same : Equates same where
  symm h := by
    obtain ⟨place, hx, hy⟩ := same_iff.mp h
    exact same_iff.mpr ⟨place, hy, hx⟩
  trans h h' := by
    obtain ⟨place, hx, hy⟩ := same_iff.mp h
    obtain ⟨place', hy', hz⟩ := same_iff.mp h'
    rw [hy, Option.some_inj] at hy'
    exact same_iff.mpr ⟨place, hx, hy' ▸ hz⟩

theorem same_self_iff {x : Binary64} : x.same x = true ↔ x ≠ .nan := by
  cases x with
  | finite negative rank => exact ⟨fun _ => nofun, fun _ => same_iff.mpr ⟨_, rfl, rfl⟩⟩
  | infinite negative => exact ⟨fun _ => nofun, fun _ => same_iff.mpr ⟨_, rfl, rfl⟩⟩
  | nan => exact ⟨nofun, fun h => absurd rfl h⟩

theorem ne_nan_of_isFinite {x : Binary64} (h : x.isFinite = true) : x ≠ .nan := by
  rintro rfl
  cases h

end Binary64

namespace Coordinate

theorem equates_same : Equates same where
  symm h := by
    obtain ⟨hLat, hLon⟩ := Bool.and_eq_true_iff.mp h
    exact Bool.and_eq_true_iff.mpr
      ⟨Binary64.equates_same.symm hLat, Binary64.equates_same.symm hLon⟩
  trans h h' := by
    obtain ⟨hLat, hLon⟩ := Bool.and_eq_true_iff.mp h
    obtain ⟨hLat', hLon'⟩ := Bool.and_eq_true_iff.mp h'
    exact Bool.and_eq_true_iff.mpr
      ⟨Binary64.equates_same.trans hLat hLat', Binary64.equates_same.trans hLon hLon'⟩

theorem same_self_iff {c : Coordinate} : c.same c = true ↔ c.lat ≠ .nan ∧ c.lon ≠ .nan := by
  rw [same, Bool.and_eq_true, Binary64.same_self_iff, Binary64.same_self_iff]

end Coordinate

/-! ## Fields -/

section Fields

variable {α : Type} {same : α → α → Bool} {old mid new new' : α} {said said' : Option α}

/-- A field has the value that is said, as far as the comparison can tell; where nothing is said it
is left as it is. -/
def Taken (same : α → α → Bool) (said : Option α) (old new : α) : Prop :=
  (∀ a ∈ said, same new a = true) ∧ (said = none → new = old)

theorem said_beq [BEq α] [ReflBEq α] : ∀ a ∈ said, (a == a) = true :=
  fun a _ => beq_self_eq_true a

theorem taken_assign (hSame : Equates same) (hSelf : ∀ a ∈ said, same a a = true) :
    Taken same said old (assign same old said).1 := by
  cases said with
  | none => exact ⟨nofun, fun _ => rfl⟩
  | some a =>
    refine ⟨fun b hMem => ?_, nofun⟩
    obtain rfl : a = b := by simpa using hMem
    simp only [assign]
    split
    case isTrue hOld => exact hSame.symm hOld
    case isFalse => exact hSelf a rfl

theorem taken_none : Taken same none old old := ⟨nofun, fun _ => rfl⟩

/-- What is equal to something is equal to itself, so it may be taken as it is. -/
theorem Taken.getD (hSame : Equates same) (h : Taken same said old new) :
    Taken same said old (said.getD old) := by
  cases said with
  | none => exact taken_none
  | some a =>
    refine ⟨fun b hMem => ?_, nofun⟩
    obtain rfl : a = b := by simpa using hMem
    exact hSame.trans (hSame.symm (h.1 a rfl)) (h.1 a rfl)

/-- What is said later counts more. -/
theorem Taken.or (h : Taken same said old mid) (h' : Taken same said' mid new) :
    Taken same (said'.or said) old new := by
  cases said' with
  | none =>
    rw [Option.none_or, h'.2 rfl]
    exact h
  | some a => exact ⟨h'.1, nofun⟩

/-- What is said settles the field, as far as the comparison can tell. -/
theorem Taken.unique (hSame : Equates same) (hOld : same old old = true)
    (h : Taken same said old new) (h' : Taken same said old new') : same new new' = true := by
  cases said with
  | none =>
    rw [h.2 rfl, h'.2 rfl]
    exact hOld
  | some a => exact hSame.trans (h.1 a rfl) (hSame.symm (h'.1 a rfl))

/-- A second assignment of a value finds nothing to do. -/
theorem assign_assign (hSelf : ∀ a ∈ said, same a a = true) :
    (assign same (assign same old said).1 said).1 = (assign same old said).1 := by
  cases said with
  | none => rfl
  | some a =>
    cases hOld : same a old with
    | true => simp [assign, hOld]
    | false => simp [assign, hOld, hSelf a rfl]

/-- An assignment reports a change exactly if there is one. -/
theorem assign_unchanged_iff (hSelf : ∀ a ∈ said, same a a = true) :
    (assign same old said).2 = false ↔ (assign same old said).1 = old := by
  refine ⟨assign_of_unchanged, fun hKept => ?_⟩
  cases hChanged : (assign same old said).2 with
  | false => rfl
  | true =>
    -- What is assigned differs from the old value, but not from itself.
    obtain ⟨hSaid, hOther⟩ := assign_of_changed hChanged
    have hEqual := hSelf _ hSaid
    rw [hKept] at hEqual hOther
    exact hEqual.symm.trans hOther

end Fields

/-! ## Queries -/

namespace Query

/-- Whether queries are equal, as edits see it, in all that the routing server is told. -/
def sameTrip (q r : Query) : Bool :=
  sameOption Coordinate.same q.origin r.origin &&
    sameOption Coordinate.same q.destination r.destination &&
    q.time == r.time && q.timeMode == r.timeMode &&
    q.accessProfile == r.accessProfile && q.egressProfile == r.egressProfile &&
    q.accessWeight.same r.accessWeight && q.egressWeight.same r.egressWeight &&
    q.rangeQuery == r.rangeQuery && q.rangeSpan == r.rangeSpan &&
    q.streetLimit == r.streetLimit && q.ignoreTransfers == r.ignoreTransfers

/-- Whether queries are equal, as edits see it, in all their fields. -/
def same (q r : Query) : Bool :=
  q.sameTrip r && sameOption Binary64.same q.auxiliaryDistance r.auxiliaryDistance

end Query

end TripPlanner
