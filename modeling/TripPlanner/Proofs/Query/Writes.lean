import TripPlanner.Proofs.Planner.Start
import TripPlanner.Proofs.Query.Equality
import TripPlanner.Proofs.Query.Validity
import Mathlib.Data.List.Induction

/-!
# What edits write

An edit writes the values that the rules accept, each as the rule gives it (`Edit.writes`), and
applying the edit is applying these (`Query.apply_writes`). After edits in a row each field has the
value that was written to it last, whatever happened to the other fields; that is what the edit with
all the last values does (`Edit.merged`, `Query.last_write_wins`).

The steps between need not be the same for the merged edit, since a number that is equal to the old
one leaves the old one in place. So the queries are equal as edits see it (`Query.same`), and a zero
may have the other sign.
-/

namespace TripPlanner

/-! ## Accepted values -/

namespace Rule

variable {ε α : Type} {rule : α → Except ε α}

theorem accepted_accepted (hStable : ∀ {a v}, rule a = .ok v → rule v = .ok v) (new : Option α) :
    accepted rule (accepted rule new) = accepted rule new := by
  refine accepted_of_forall fun v hMem => ?_
  obtain ⟨a, -, hRule⟩ := accepted_eq_some_iff.mp hMem
  exact hStable hRule

theorem accepted_or {new old : Option α} (hNew : accepted rule new = new)
    (hOld : accepted rule old = old) : accepted rule (new.or old) = new.or old := by
  cases new with
  | none => rwa [Option.none_or]
  | some a => exact hNew

theorem endpoint_accepted (new : Option (Option Coordinate)) :
    accepted endpoint (accepted endpoint new) = accepted endpoint new := by
  refine accepted_accepted (fun h => ?_) new
  obtain ⟨rfl, -⟩ := endpoint_eq_ok_iff.mp h
  exact h

theorem same_endpoint {new : Option (Option Coordinate)} :
    ∀ v ∈ accepted endpoint new, sameOption Coordinate.same v v = true := by
  intro v hMem
  obtain ⟨new, -, hRule⟩ := accepted_eq_some_iff.mp hMem
  obtain ⟨-, hGlobe⟩ := endpoint_eq_ok_iff.mp hRule
  refine sameOption_self_iff.mpr fun c hc => Coordinate.same_self_iff.mpr ?_
  exact ⟨Binary64.ne_nan_of_isFinite (hGlobe c hc).lat.isFinite,
    Binary64.ne_nan_of_isFinite (hGlobe c hc).lon.isFinite⟩

theorem same_weight {new : Option Binary64} : ∀ x ∈ accepted weight new, x.same x = true := by
  intro x hMem
  obtain ⟨new, -, hRule⟩ := accepted_eq_some_iff.mp hMem
  exact Binary64.same_self_iff.mpr
    (Binary64.ne_nan_of_isFinite (weight_eq_ok (weight_stable hRule)).2)

end Rule

namespace Edit

/-- What an edit writes: each value as the rule for its field accepts it. -/
def writes (e : Edit) : Edit where
  origin := Rule.accepted Rule.endpoint e.origin
  destination := Rule.accepted Rule.endpoint e.destination
  time := e.time.map Instant.wholeSecond
  timeMode := e.timeMode
  accessProfile := Rule.accepted Rule.profile e.accessProfile
  egressProfile := Rule.accepted Rule.profile e.egressProfile
  accessWeight := Rule.accepted Rule.weight e.accessWeight
  egressWeight := Rule.accepted Rule.weight e.egressWeight
  rangeQuery := e.rangeQuery
  rangeSpan := e.rangeSpan
  streetLimit := e.streetLimit
  ignoreTransfers := e.ignoreTransfers
  auxiliaryDistance := e.auxiliaryDistance

/-- What is written of an edit: ends that are cleared or on the globe, the time without the fraction
of its second, names without the white space around them unless they are blank, weights that are
finite and not negative, and all the rest. -/
structure WrittenAs (e w : Edit) : Prop where
  origin : ∀ v, w.origin = some v ↔ e.origin = some v ∧ ∀ c ∈ v, c.OnGlobe
  destination : ∀ v, w.destination = some v ↔ e.destination = some v ∧ ∀ c ∈ v, c.OnGlobe
  time : w.time = e.time.map Instant.wholeSecond
  timeMode : w.timeMode = e.timeMode
  accessProfile : ∀ name, w.accessProfile = some name ↔
    name ≠ "" ∧ e.accessProfile.map Text.trimmed = some name
  egressProfile : ∀ name, w.egressProfile = some name ↔
    name ≠ "" ∧ e.egressProfile.map Text.trimmed = some name
  accessWeight : ∀ x, w.accessWeight = some x ↔
    e.accessWeight = some x ∧ ∃ value, x.value? = some value ∧ 0 ≤ value
  egressWeight : ∀ x, w.egressWeight = some x ↔
    e.egressWeight = some x ∧ ∃ value, x.value? = some value ∧ 0 ≤ value
  rangeQuery : w.rangeQuery = e.rangeQuery
  rangeSpan : w.rangeSpan = e.rangeSpan
  streetLimit : w.streetLimit = e.streetLimit
  ignoreTransfers : w.ignoreTransfers = e.ignoreTransfers
  auxiliaryDistance : w.auxiliaryDistance = e.auxiliaryDistance

theorem writtenAs_writes (e : Edit) : e.WrittenAs e.writes := by
  have hEndpoint : ∀ (new : Option (Option Coordinate)) v,
      Rule.accepted Rule.endpoint new = some v ↔ new = some v ∧ ∀ c ∈ v, c.OnGlobe := by
    intro new v
    simp only [Rule.accepted_eq_some_iff, Rule.endpoint_eq_ok_iff]
    constructor
    · rintro ⟨a, rfl, rfl, hGlobe⟩
      exact ⟨rfl, hGlobe⟩
    · rintro ⟨rfl, hGlobe⟩
      exact ⟨v, rfl, rfl, hGlobe⟩
  have hProfile : ∀ (new : Option String) name, Rule.accepted Rule.profile new = some name ↔
      name ≠ "" ∧ new.map Text.trimmed = some name := by
    intro new name
    simp only [Rule.accepted_eq_some_iff, Rule.profile_eq_ok_iff, Option.map_eq_some_iff]
    constructor
    · rintro ⟨s, hNew, hNonempty, hTrimmed⟩
      exact ⟨hNonempty, s, hNew, hTrimmed⟩
    · rintro ⟨hNonempty, s, hNew, hTrimmed⟩
      exact ⟨s, hNew, hNonempty, hTrimmed⟩
  have hWeight : ∀ (new : Option Binary64) x, Rule.accepted Rule.weight new = some x ↔
      new = some x ∧ ∃ value, x.value? = some value ∧ 0 ≤ value := by
    intro new x
    simp only [Rule.accepted_eq_some_iff, Rule.weight_eq_ok_iff]
    constructor
    · rintro ⟨a, hNew, rfl, hValue⟩
      exact ⟨hNew, hValue⟩
    · rintro ⟨hNew, hValue⟩
      exact ⟨x, hNew, rfl, hValue⟩
  exact ⟨hEndpoint _, hEndpoint _, rfl, rfl, hProfile _, hProfile _, hWeight _, hWeight _,
    rfl, rfl, rfl, rfl, rfl⟩

theorem writes_writes (e : Edit) : e.writes.writes = e.writes := by
  have hTime : (e.time.map Instant.wholeSecond).map Instant.wholeSecond =
      e.time.map Instant.wholeSecond := by
    cases e.time <;> rfl
  simp only [writes, Rule.endpoint_accepted, Rule.accepted_accepted Rule.profile_stable,
    Rule.accepted_accepted Rule.weight_stable, hTime]

/-- The values of one edit, and those of another where it has none. -/
def or (new old : Edit) : Edit where
  origin := new.origin.or old.origin
  destination := new.destination.or old.destination
  time := new.time.or old.time
  timeMode := new.timeMode.or old.timeMode
  accessProfile := new.accessProfile.or old.accessProfile
  egressProfile := new.egressProfile.or old.egressProfile
  accessWeight := new.accessWeight.or old.accessWeight
  egressWeight := new.egressWeight.or old.egressWeight
  rangeQuery := new.rangeQuery.or old.rangeQuery
  rangeSpan := new.rangeSpan.or old.rangeSpan
  streetLimit := new.streetLimit.or old.streetLimit
  ignoreTransfers := new.ignoreTransfers.or old.ignoreTransfers
  auxiliaryDistance := new.auxiliaryDistance.or old.auxiliaryDistance

theorem writes_or {new old : Edit} (hNew : new.writes = new) (hOld : old.writes = old) :
    (new.or old).writes = new.or old := by
  have hTime : (new.time.or old.time).map Instant.wholeSecond = new.time.or old.time := by
    have hNewTime : new.time.map Instant.wholeSecond = new.time := congrArg time hNew
    have hOldTime : old.time.map Instant.wholeSecond = old.time := congrArg time hOld
    rw [Option.map_or, hNewTime, hOldTime]
  simp only [writes, Edit.or, hTime,
    Rule.accepted_or (congrArg origin hNew) (congrArg origin hOld),
    Rule.accepted_or (congrArg destination hNew) (congrArg destination hOld),
    Rule.accepted_or (congrArg accessProfile hNew) (congrArg accessProfile hOld),
    Rule.accepted_or (congrArg egressProfile hNew) (congrArg egressProfile hOld),
    Rule.accepted_or (congrArg accessWeight hNew) (congrArg accessWeight hOld),
    Rule.accepted_or (congrArg egressWeight hNew) (congrArg egressWeight hOld)]

/-- What is written to a field last. -/
def last {α : Type} (field : Edit → Option α) (edits : List Edit) : Option α :=
  (edits.filterMap fun e => field e.writes).getLast?

/-- The edit with what is written to each field last. -/
def merged (edits : List Edit) : Edit where
  origin := last origin edits
  destination := last destination edits
  time := last time edits
  timeMode := last timeMode edits
  accessProfile := last accessProfile edits
  egressProfile := last egressProfile edits
  accessWeight := last accessWeight edits
  egressWeight := last egressWeight edits
  rangeQuery := last rangeQuery edits
  rangeSpan := last rangeSpan edits
  streetLimit := last streetLimit edits
  ignoreTransfers := last ignoreTransfers edits
  auxiliaryDistance := last auxiliaryDistance edits

theorem last_concat {α : Type} (field : Edit → Option α) (edits : List Edit) (e : Edit) :
    last field (edits ++ [e]) = (field e.writes).or (last field edits) := by
  rw [last, last, List.filterMap_append, List.getLast?_append]
  cases hField : field e.writes <;> simp [hField]

theorem merged_concat (edits : List Edit) (e : Edit) :
    merged (edits ++ [e]) = e.writes.or (merged edits) := by
  simp only [merged, Edit.or, last_concat]

theorem writes_merged (edits : List Edit) : (merged edits).writes = merged edits := by
  induction edits using List.reverseRecOn with
  | nil => rfl
  | append_singleton edits e ih =>
    rw [merged_concat]
    exact writes_or (writes_writes e) ih

/-- The auxiliary distance, if there is a new one, is a number. -/
def Numeric (e : Edit) : Prop := e.auxiliaryDistance ≠ some (some .nan)

theorem numeric_merged {edits : List Edit} (h : ∀ e ∈ edits, e.Numeric) :
    (merged edits).Numeric := by
  intro hLast
  obtain ⟨e, hMem, hDistance⟩ := List.mem_filterMap.mp (List.mem_of_getLast? hLast)
  exact h e hMem hDistance

theorem Numeric.same_distance {e : Edit} (h : e.Numeric) :
    ∀ d ∈ e.auxiliaryDistance, sameOption Binary64.same d d = true := by
  intro d hMem
  refine sameOption_self_iff.mpr fun x hx => Binary64.same_self_iff.mpr ?_
  rintro rfl
  exact h (hMem.trans (congrArg some hx))

end Edit

namespace Query

/-- The values of an edit are taken: each field has the value that the edit has for it, as far as
edits can tell, and stays as it was where the edit has none. -/
structure Takes (q : Query) (e : Edit) (r : Query) : Prop where
  origin : Taken (sameOption Coordinate.same) e.origin q.origin r.origin
  destination : Taken (sameOption Coordinate.same) e.destination q.destination r.destination
  time : Taken (· == ·) e.time q.time r.time
  timeMode : Taken (· == ·) e.timeMode q.timeMode r.timeMode
  accessProfile : Taken (· == ·) e.accessProfile q.accessProfile r.accessProfile
  egressProfile : Taken (· == ·) e.egressProfile q.egressProfile r.egressProfile
  accessWeight : Taken Binary64.same e.accessWeight q.accessWeight r.accessWeight
  egressWeight : Taken Binary64.same e.egressWeight q.egressWeight r.egressWeight
  rangeQuery : Taken (· == ·) e.rangeQuery q.rangeQuery r.rangeQuery
  rangeSpan : Taken (· == ·) e.rangeSpan q.rangeSpan r.rangeSpan
  streetLimit : Taken (· == ·) e.streetLimit q.streetLimit r.streetLimit
  ignoreTransfers : Taken (· == ·) e.ignoreTransfers q.ignoreTransfers r.ignoreTransfers
  auxiliaryDistance : Taken (sameOption Binary64.same) e.auxiliaryDistance q.auxiliaryDistance
    r.auxiliaryDistance

theorem takes_refl (q : Query) : q.Takes {} q := by
  constructor <;> exact taken_none

theorem Takes.or {q r s : Query} {e e' : Edit} (h : q.Takes e r) (h' : r.Takes e' s) :
    q.Takes (e'.or e) s where
  origin := h.origin.or h'.origin
  destination := h.destination.or h'.destination
  time := h.time.or h'.time
  timeMode := h.timeMode.or h'.timeMode
  accessProfile := h.accessProfile.or h'.accessProfile
  egressProfile := h.egressProfile.or h'.egressProfile
  accessWeight := h.accessWeight.or h'.accessWeight
  egressWeight := h.egressWeight.or h'.egressWeight
  rangeQuery := h.rangeQuery.or h'.rangeQuery
  rangeSpan := h.rangeSpan.or h'.rangeSpan
  streetLimit := h.streetLimit.or h'.streetLimit
  ignoreTransfers := h.ignoreTransfers.or h'.ignoreTransfers
  auxiliaryDistance := h.auxiliaryDistance.or h'.auxiliaryDistance

theorem takes_apply (q : Query) {e : Edit} (h : e.Numeric) : q.Takes e.writes (q.apply e).1 where
  origin := taken_assign Coordinate.equates_same.option Rule.same_endpoint
  destination := taken_assign Coordinate.equates_same.option Rule.same_endpoint
  time := taken_assign equates_beq said_beq
  timeMode := taken_assign equates_beq said_beq
  accessProfile := taken_assign equates_beq said_beq
  egressProfile := taken_assign equates_beq said_beq
  accessWeight := taken_assign Binary64.equates_same Rule.same_weight
  egressWeight := taken_assign Binary64.equates_same Rule.same_weight
  rangeQuery := taken_assign equates_beq said_beq
  rangeSpan := taken_assign equates_beq said_beq
  streetLimit := taken_assign equates_beq said_beq
  ignoreTransfers := taken_assign equates_beq said_beq
  auxiliaryDistance := taken_assign Binary64.equates_same.option h.same_distance

theorem applyAll_concat (q : Query) (edits : List Edit) (e : Edit) :
    q.applyAll (edits ++ [e]) = ((q.applyAll edits).apply e).1 := by
  rw [applyAll, List.foldl_append]
  rfl

/-- A query takes what edits in a row write last. -/
theorem takes_applyAll (q : Query) {edits : List Edit} (h : ∀ e ∈ edits, e.Numeric) :
    q.Takes (Edit.merged edits) (q.applyAll edits) := by
  induction edits using List.reverseRecOn with
  | nil => exact q.takes_refl
  | append_singleton edits e ih =>
    rw [applyAll_concat, Edit.merged_concat]
    have hBefore := ih fun e' hMem => h e' (List.mem_append_left _ hMem)
    exact hBefore.or (takes_apply _ (h e (by simp)))

/-- No value of a query is not a number. -/
structure Numeric (q : Query) : Prop where
  origin : ∀ c ∈ q.origin, c.lat ≠ .nan ∧ c.lon ≠ .nan
  destination : ∀ c ∈ q.destination, c.lat ≠ .nan ∧ c.lon ≠ .nan
  accessWeight : q.accessWeight ≠ .nan
  egressWeight : q.egressWeight ≠ .nan
  auxiliaryDistance : q.auxiliaryDistance ≠ some .nan

/-- What is taken settles the query, as far as edits can tell. -/
theorem Takes.unique {q r s : Query} {e : Edit} (hq : q.Numeric) (h : q.Takes e r)
    (h' : q.Takes e s) : r.same s = true := by
  have hEnd : ∀ {place : Option Coordinate}, (∀ c ∈ place, c.lat ≠ .nan ∧ c.lon ≠ .nan) →
      sameOption Coordinate.same place place = true := fun hPlace =>
    sameOption_self_iff.mpr fun c hMem => Coordinate.same_self_iff.mpr (hPlace c hMem)
  have hDistance : sameOption Binary64.same q.auxiliaryDistance q.auxiliaryDistance = true := by
    refine sameOption_self_iff.mpr fun d hMem => Binary64.same_self_iff.mpr ?_
    rintro rfl
    exact hq.auxiliaryDistance hMem
  simp only [same, sameTrip, Bool.and_eq_true]
  exact ⟨⟨⟨⟨⟨⟨⟨⟨⟨⟨⟨⟨
    h.origin.unique Coordinate.equates_same.option (hEnd hq.origin) h'.origin,
    h.destination.unique Coordinate.equates_same.option (hEnd hq.destination) h'.destination⟩,
    h.time.unique equates_beq (beq_self_eq_true _) h'.time⟩,
    h.timeMode.unique equates_beq (beq_self_eq_true _) h'.timeMode⟩,
    h.accessProfile.unique equates_beq (beq_self_eq_true _) h'.accessProfile⟩,
    h.egressProfile.unique equates_beq (beq_self_eq_true _) h'.egressProfile⟩,
    h.accessWeight.unique Binary64.equates_same (Binary64.same_self_iff.mpr hq.accessWeight)
      h'.accessWeight⟩,
    h.egressWeight.unique Binary64.equates_same (Binary64.same_self_iff.mpr hq.egressWeight)
      h'.egressWeight⟩,
    h.rangeQuery.unique equates_beq (beq_self_eq_true _) h'.rangeQuery⟩,
    h.rangeSpan.unique equates_beq (beq_self_eq_true _) h'.rangeSpan⟩,
    h.streetLimit.unique equates_beq (beq_self_eq_true _) h'.streetLimit⟩,
    h.ignoreTransfers.unique equates_beq (beq_self_eq_true _) h'.ignoreTransfers⟩,
    h.auxiliaryDistance.unique Binary64.equates_same.option hDistance h'.auxiliaryDistance⟩

/-- A query with the values of an edit, and with its own where the edit has none. -/
def written (q : Query) (e : Edit) : Query where
  origin := e.origin.getD q.origin
  destination := e.destination.getD q.destination
  time := e.time.getD q.time
  timeMode := e.timeMode.getD q.timeMode
  accessProfile := e.accessProfile.getD q.accessProfile
  egressProfile := e.egressProfile.getD q.egressProfile
  accessWeight := e.accessWeight.getD q.accessWeight
  egressWeight := e.egressWeight.getD q.egressWeight
  rangeQuery := e.rangeQuery.getD q.rangeQuery
  rangeSpan := e.rangeSpan.getD q.rangeSpan
  streetLimit := e.streetLimit.getD q.streetLimit
  ignoreTransfers := e.ignoreTransfers.getD q.ignoreTransfers
  auxiliaryDistance := e.auxiliaryDistance.getD q.auxiliaryDistance

/-- If a query takes the values of an edit at all, it takes them as they are. -/
theorem Takes.written {q r : Query} {e : Edit} (h : q.Takes e r) : q.Takes e (q.written e) where
  origin := h.origin.getD Coordinate.equates_same.option
  destination := h.destination.getD Coordinate.equates_same.option
  time := h.time.getD equates_beq
  timeMode := h.timeMode.getD equates_beq
  accessProfile := h.accessProfile.getD equates_beq
  egressProfile := h.egressProfile.getD equates_beq
  accessWeight := h.accessWeight.getD Binary64.equates_same
  egressWeight := h.egressWeight.getD Binary64.equates_same
  rangeQuery := h.rangeQuery.getD equates_beq
  rangeSpan := h.rangeSpan.getD equates_beq
  streetLimit := h.streetLimit.getD equates_beq
  ignoreTransfers := h.ignoreTransfers.getD equates_beq
  auxiliaryDistance := h.auxiliaryDistance.getD Binary64.equates_same.option

theorem apply_congr (q : Query) {e e' : Edit} (h : e.writes = e'.writes) :
    q.apply e = q.apply e' := by
  simp only [Edit.writes, Edit.mk.injEq] at h
  simp only [apply, h]

theorem apply_writes (q : Query) (e : Edit) : q.apply e.writes = q.apply e :=
  q.apply_congr e.writes_writes

theorem applyAll_writes (q : Query) (edits : List Edit) :
    q.applyAll (edits.map Edit.writes) = q.applyAll edits := by
  rw [applyAll, applyAll, List.foldl_map]
  simp only [apply_writes]

/-- **The last write wins, field by field.** An edit writes the values that are acceptable, as a
query holds them. After edits in a row each field of a query has the value that was written to it
last, and its own if none was; the edit with the last values does the same. Values that are not
acceptable may as well be left out. No number here is the one that is not a number, and numbers are
equal as edits see it. -/
theorem last_write_wins {q : Query} (hq : q.Numeric) {edits : List Edit}
    (hEdits : ∀ e ∈ edits, e.Numeric) :
    (∀ e : Edit, e.WrittenAs e.writes) ∧
      (q.applyAll edits).same (q.written (Edit.merged edits)) = true ∧
      (q.applyAll edits).same (q.apply (Edit.merged edits)).1 = true ∧
      q.applyAll (edits.map Edit.writes) = q.applyAll edits := by
  have hTakes := q.takes_applyAll hEdits
  have hMerged := Edit.numeric_merged hEdits
  have hOnce := q.takes_apply hMerged
  rw [Edit.writes_merged] at hOnce
  exact ⟨Edit.writtenAs_writes, hTakes.unique hq hTakes.written, hTakes.unique hq hOnce,
    q.applyAll_writes edits⟩

/-- A blank name and a weight that is not a number are not written; the destination that comes with
them is cleared. -/
theorem last_write_wins_usual :
    let q := start Planner.newYear ({} : Configuration).settings
    let edits : List Edit := [Planner.usualTrip,
      { destination := some none, accessProfile := some " ", accessWeight := some .nan }]
    (q.applyAll edits).same { q with origin := some ⟨.ofInt 1, .ofInt 2⟩ } = true := by
  intro q edits
  have hNumeric : q.Numeric := ⟨nofun, nofun, by decide +kernel, by decide +kernel, nofun⟩
  have hEdits : ∀ e ∈ edits, e.Numeric := by
    intro e hMem
    simp only [edits, List.mem_cons, List.not_mem_nil, or_false] at hMem
    rcases hMem with rfl | rfl <;> exact nofun
  have hWritten : q.written (Edit.merged edits) =
      { q with origin := some ⟨.ofInt 1, .ofInt 2⟩ } := by decide +kernel
  rw [← hWritten]
  exact (last_write_wins hNumeric hEdits).2.1

end Query

end TripPlanner
