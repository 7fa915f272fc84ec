import TripPlanner.Proofs.Link.Reopening
import TripPlanner.Proofs.Query.Equality

/-!
# Which queries have the same link

Complete queries have the same link exactly if they differ in nothing but the auxiliary distance
(`text_link_eq_iff`). That is more than being equal as edits see it (`Query.sameTrip`), since an
equal number may be the zero of the other sign, and a link writes the sign (`identity`,
`unlike_usual`).
-/

namespace TripPlanner

namespace Binary64

theorem OppositeZeros.symm {x y : Binary64} (h : OppositeZeros x y) : OppositeZeros y x := by
  obtain ⟨negative, hx, hy⟩ := h
  exact ⟨!negative, hy, by rw [Bool.not_not, hx]⟩

theorem eq_iff_same {x y : Binary64} (hx : x.isFinite = true) (hy : y.isFinite = true) :
    x = y ↔ x.same y = true ∧ ¬ OppositeZeros x y := by
  rw [same_finite_iff hx hy]
  constructor
  · intro hEq
    exact ⟨Or.inl hEq, fun hOpposite => hOpposite.ne hEq⟩
  · rintro ⟨hEq | hOpposite, hNot⟩
    · exact hEq
    · exact absurd hOpposite.symm hNot

end Binary64

namespace Coordinate

/-- A number of one coordinate is a zero, and that of the other is the zero of the other sign. -/
def DiffersInSign (a b : Coordinate) : Prop :=
  Binary64.OppositeZeros a.lat b.lat ∨ Binary64.OppositeZeros a.lon b.lon

instance (a b : Coordinate) : Decidable (a.DiffersInSign b) :=
  inferInstanceAs (Decidable (_ ∨ _))

theorem eq_iff_same {a b : Coordinate} (ha : checked a.lat a.lon = .ok a)
    (hb : checked b.lat b.lon = .ok b) : a = b ↔ a.same b = true ∧ ¬ a.DiffersInSign b := by
  obtain ⟨-, hLat, hLon⟩ := checked_eq_ok ha
  obtain ⟨-, hLat', hLon'⟩ := checked_eq_ok hb
  have hFields : a = b ↔ a.lat = b.lat ∧ a.lon = b.lon := by
    cases a
    cases b
    rw [Coordinate.mk.injEq]
  rw [hFields, Binary64.eq_iff_same hLat hLat', Binary64.eq_iff_same hLon hLon', same,
    Bool.and_eq_true, DiffersInSign, not_or, and_and_and_comm]

/-- Both ends are known, and some number of theirs differs in its sign only. -/
def EndsDifferInSign (a b : Option Coordinate) : Prop := ∃ x ∈ a, ∃ y ∈ b, x.DiffersInSign y

instance (a b : Option Coordinate) : Decidable (EndsDifferInSign a b) :=
  inferInstanceAs (Decidable (∃ x ∈ a, ∃ y ∈ b, x.DiffersInSign y))

theorem end_eq_iff_same {a b : Option Coordinate} (ha : ∀ c ∈ a, checked c.lat c.lon = .ok c)
    (hb : ∀ c ∈ b, checked c.lat c.lon = .ok c) :
    a = b ↔ sameOption same a b = true ∧ ¬ EndsDifferInSign a b := by
  cases a with
  | none =>
    cases b with
    | none => simp [sameOption, EndsDifferInSign]
    | some y => simp [sameOption]
  | some x =>
    cases b with
    | none => simp [sameOption]
    | some y =>
      rw [Option.some_inj, eq_iff_same (ha x rfl) (hb y rfl)]
      simp [sameOption, EndsDifferInSign]

end Coordinate

namespace Query

/-- A checked configuration, a location and some edits make the query. -/
def Reachable (q : Query) : Prop :=
  ∃ c now location edits, Configuration.check c = .ok () ∧ q = reached c now location edits

theorem Reachable.valid {q : Query} (h : q.Reachable) : q.Valid := by
  obtain ⟨c, now, location, edits, hCheck, rfl⟩ := h
  exact valid_reached hCheck now location edits

/-- Some number of one query is a zero, and that of the other is the zero of the other sign. -/
def DiffersInSign (q r : Query) : Prop :=
  Coordinate.EndsDifferInSign q.origin r.origin ∨
    Coordinate.EndsDifferInSign q.destination r.destination ∨
    Binary64.OppositeZeros q.accessWeight r.accessWeight ∨
    Binary64.OppositeZeros q.egressWeight r.egressWeight

instance (q r : Query) : Decidable (q.DiffersInSign r) :=
  inferInstanceAs (Decidable (_ ∨ _ ∨ _ ∨ _))

theorem withoutDistance_eq_iff {q r : Query} (hq : q.Valid) (hr : r.Valid) :
    q.withoutDistance = r.withoutDistance ↔ q.sameTrip r = true ∧ ¬ q.DiffersInSign r := by
  have hAccess := Binary64.eq_iff_same (Rule.weight_eq_ok hq.accessWeight).2
    (Rule.weight_eq_ok hr.accessWeight).2
  have hEgress := Binary64.eq_iff_same (Rule.weight_eq_ok hq.egressWeight).2
    (Rule.weight_eq_ok hr.egressWeight).2
  simp only [withoutDistance, Query.mk.injEq, and_true,
    Coordinate.end_eq_iff_same hq.origin hr.origin,
    Coordinate.end_eq_iff_same hq.destination hr.destination, hAccess, hEgress, sameTrip,
    Bool.and_eq_true, beq_iff_eq, DiffersInSign, not_or]
  tauto

/-- The link of a complete query tells all of it but the distance. -/
theorem withoutDistance_of_told {q r : Query} (hq : q.isComplete = true)
    (hr : r.isComplete = true) (h : q.told = r.told) : q.withoutDistance = r.withoutDistance := by
  simp only [isComplete, Bool.and_eq_true, Option.isSome_iff_exists] at hq hr
  obtain ⟨⟨a, hOrigin⟩, b, hDestination⟩ := hq
  obtain ⟨⟨a', hOrigin'⟩, b', hDestination'⟩ := hr
  simp only [told, hOrigin, hOrigin', hDestination, hDestination', Edit.mk.injEq, Option.map_some,
    Option.some_or, Option.bind_some, Option.some.injEq] at h
  simp [withoutDistance, hOrigin, hOrigin', hDestination, hDestination', h]

end Query

namespace Link

/-- Complete queries have the same link exactly if they differ in nothing but the distance. -/
theorem text_link_eq_iff {q r : Query} (hq : q.Valid) (hr : r.Valid) (hq' : q.isComplete = true)
    (hr' : r.isComplete = true) (f : LinkFormat) (base : Url) :
    (f.link base q).text = (f.link base r).text ↔ q.withoutDistance = r.withoutDistance := by
  constructor
  · intro hText
    have hPairs := link_eq_iff.mp (link_eq_of_text_eq hText)
    refine Query.withoutDistance_of_told hq' hr' ?_
    rw [← edit_of_pairs hq f, ← edit_of_pairs hr f, hPairs]
  · intro hSame
    change (f.link base q.withoutDistance).text = (f.link base r.withoutDistance).text
    rw [hSame]

/-- **A link is the identity of its query.** Two complete queries, each made by some checked
configuration, have the same link exactly if they are equal in all that the routing server is told
and no zero in one of them is the zero of the other sign in the other. -/
theorem identity {q r : Query} (hq : q.Reachable) (hr : r.Reachable)
    (hComplete : q.isComplete = true) (hComplete' : r.isComplete = true) (f : LinkFormat)
    (base : Url) :
    (f.link base q).text = (f.link base r).text ↔ q.sameTrip r = true ∧ ¬ q.DiffersInSign r := by
  rw [text_link_eq_iff hq.valid hr.valid hComplete hComplete',
    Query.withoutDistance_eq_iff hq.valid hr.valid]

/-- The usual query from a place on the equator. -/
def fromEquator (negative : Bool) : Query :=
  Query.reached {} Planner.newYear Planner.usualPage
    [.endpoints ⟨.ofRank negative 0, .ofInt 2⟩ ⟨.ofInt 3, .ofInt 4⟩]

theorem reachable_fromEquator (negative : Bool) : (fromEquator negative).Reachable := by
  have hCheck : Configuration.check {} = .ok () := by decide +kernel
  exact ⟨{}, Planner.newYear, Planner.usualPage, _, hCheck, rfl⟩

/-- A query has the link of the one with a distance in addition. -/
theorem identity_usual :
    (LinkFormat.link ⟨"en-US", "pt"⟩ Planner.usualPage (fromEquator false)).text =
      (LinkFormat.link ⟨"en-US", "pt"⟩ Planner.usualPage (Query.reached {} Planner.newYear
        Planner.usualPage [.endpoints ⟨.ofRank false 0, .ofInt 2⟩ ⟨.ofInt 3, .ofInt 4⟩,
          .toDistance (some (.ofInt 500))])).text := by
  have hCheck : Configuration.check {} = .ok () := by decide +kernel
  refine (identity (reachable_fromEquator false) ⟨{}, _, _, _, hCheck, rfl⟩ ?_ ?_ _ _).mpr ?_
  · decide +kernel
  · decide +kernel
  · decide +kernel

/-- Zero degrees of either sign are the same place, and edits see the same trip, but the links
differ. -/
theorem unlike_usual :
    (fromEquator false).Reachable ∧ (fromEquator true).Reachable ∧
      (fromEquator false).isComplete = true ∧ (fromEquator true).isComplete = true ∧
      (fromEquator false).sameTrip (fromEquator true) = true ∧
      (LinkFormat.link ⟨"en-US", "pt"⟩ Planner.usualPage (fromEquator false)).text ≠
        (LinkFormat.link ⟨"en-US", "pt"⟩ Planner.usualPage (fromEquator true)).text := by
  have hReachable := reachable_fromEquator
  have hComplete : ∀ negative, (fromEquator negative).isComplete = true := by decide +kernel
  refine ⟨hReachable _, hReachable _, hComplete _, hComplete _, by decide +kernel, ?_⟩
  rw [Ne, text_link_eq_iff (hReachable _).valid (hReachable _).valid (hComplete _) (hComplete _)]
  decide +kernel

end Link

end TripPlanner
