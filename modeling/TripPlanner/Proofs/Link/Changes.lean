import TripPlanner.Proofs.Link.Identity
import TripPlanner.Proofs.Query.Writes

/-!
# Reported changes and links

An edit reports a change of what the routing server is told exactly if there is one
(`Query.routing_eq_false_iff`), and of the auxiliary distance likewise
(`Query.auxiliary_eq_false_iff`). Since links of complete queries tell apart all that the routing
server is told, the first report says whether the link is another one (`Query.report_exact`): there
is no change that a link does not show, and none that is shown without a report.
-/

namespace TripPlanner.Query

theorem eq_iff_withoutDistance {q r : Query} :
    q = r ↔ q.withoutDistance = r.withoutDistance ∧ q.auxiliaryDistance = r.auxiliaryDistance := by
  cases q
  cases r
  simp only [withoutDistance, mk.injEq, and_true, and_assoc]

/-- What the routing server is told is reported as changed exactly if it is. -/
theorem routing_eq_false_iff (q : Query) (e : Edit) :
    (q.apply e).2.routing = false ↔ (q.apply e).1.withoutDistance = q.withoutDistance := by
  simp only [apply_change, apply_query, Bool.or_eq_false_iff, withoutDistance, mk.injEq, and_true,
    assign_unchanged_iff Rule.same_endpoint, assign_unchanged_iff Rule.same_weight,
    assign_unchanged_iff said_beq, and_assoc]

theorem auxiliary_eq_false_iff (q : Query) {e : Edit} (h : e.Numeric) :
    (q.apply e).2.auxiliary = false ↔ (q.apply e).1.auxiliaryDistance = q.auxiliaryDistance := by
  rw [apply_change, apply_query]
  exact assign_unchanged_iff h.same_distance

theorem any_eq_false_iff (q : Query) {e : Edit} (h : e.Numeric) :
    (q.apply e).2.any = false ↔ (q.apply e).1 = q := by
  rw [eq_iff_withoutDistance, ← routing_eq_false_iff, ← auxiliary_eq_false_iff q h, Change.any,
    Bool.or_eq_false_iff]

/-- An edit that is applied a second time does nothing. -/
theorem apply_apply (q : Query) {e : Edit} (h : e.Numeric) :
    (q.apply e).1.apply e = ((q.apply e).1, ⟨false, false⟩) := by
  have hKept : ((q.apply e).1.apply e).1 = (q.apply e).1 := by
    rw [apply_query, apply_query]
    simp only [assign_assign Rule.same_endpoint, assign_assign Rule.same_weight,
      assign_assign said_beq, assign_assign h.same_distance]
  have hRouting := (routing_eq_false_iff _ _).mpr (congrArg withoutDistance hKept)
  have hAuxiliary := (auxiliary_eq_false_iff _ h).mpr (congrArg Query.auxiliaryDistance hKept)
  refine Prod.ext hKept ?_
  cases hChange : ((q.apply e).1.apply e).2 with
  | mk routing auxiliary =>
    rw [hChange] at hRouting hAuxiliary
    obtain rfl : routing = false := hRouting
    obtain rfl : auxiliary = false := hAuxiliary
    rfl

/-- **Reports of changes are exact.** Take a query that some checked configuration makes, and an
edit whose auxiliary distance, if it has one, is a number. The edit reports no change exactly if the
query stays as it is. Where it reports nothing that the routing server is told, the link stays the
same, whatever it is put on; where it does, and the query is complete before and after, the link
becomes another one. The same edit once more changes nothing. -/
theorem report_exact {q : Query} (hq : q.Reachable) {e : Edit} (he : e.Numeric) (f : LinkFormat)
    (base : Url) :
    ((q.apply e).2.any = false ↔ (q.apply e).1 = q) ∧
      ((q.apply e).2.routing = false → f.link base (q.apply e).1 = f.link base q) ∧
      (q.isComplete = true → (q.apply e).1.isComplete = true → (q.apply e).2.routing = true →
        (f.link base (q.apply e).1).text ≠ (f.link base q).text) ∧
      (q.apply e).1.apply e = ((q.apply e).1, ⟨false, false⟩) := by
  refine ⟨any_eq_false_iff q he, fun hRouting => ?_, fun hComplete hComplete' hRouting hText => ?_,
    apply_apply q he⟩
  · have hSame := (routing_eq_false_iff q e).mp hRouting
    -- Links do not say the distance, so they are made of the rest.
    change f.link base (q.apply e).1.withoutDistance = f.link base q.withoutDistance
    rw [hSame]
  · have hSame := (Link.text_link_eq_iff (valid_apply hq.valid e) hq.valid hComplete' hComplete f
      base).mp hText
    rw [(routing_eq_false_iff q e).mpr hSame] at hRouting
    cases hRouting

/-- Another profile, with white space around its name, and a weight that is not a number: the link
becomes another one, and the same edit then has nothing left to change. -/
theorem report_exact_usual :
    let q := reached {} Planner.newYear Planner.usualPage [Planner.usualTrip]
    let e : Edit := { egressProfile := some " bicycle ", egressWeight := some .nan }
    let f : LinkFormat := ⟨"en-US", "pt"⟩
    (f.link Planner.usualPage (q.apply e).1).text ≠ (f.link Planner.usualPage q).text ∧
      (q.apply e).1.apply e = ((q.apply e).1, ⟨false, false⟩) := by
  intro q e f
  have hCheck : Configuration.check {} = .ok () := by decide +kernel
  have hReachable : q.Reachable := ⟨{}, _, _, _, hCheck, rfl⟩
  have hNumeric : e.Numeric := nofun
  obtain ⟨-, -, hOther, hAgain⟩ := report_exact hReachable hNumeric f Planner.usualPage
  exact ⟨hOther (by decide +kernel) (by decide +kernel) (by decide +kernel), hAgain⟩

end TripPlanner.Query
