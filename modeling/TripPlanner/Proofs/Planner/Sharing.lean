import TripPlanner.CommandLine.Output
import TripPlanner.Proofs.Link.Reopening
import TripPlanner.Proofs.Planner.Agreement
import TripPlanner.Proofs.Planner.Values
import TripPlanner.Proofs.Url.RoundTrip

/-!
# Links that are shared

A link that the planner shows sets up a planner that shows the same link (`sharing`). Whoever opens
it later has the query that it was made of, unless a weight of that query is a zero whose sign is
not the one of the default: then the default stays and the address bar is overwritten
(`unshared_usual`). The text of a link that the command writes is written once more under the same
condition, but not on a file on a host whose path begins with a drive letter.
-/

namespace TripPlanner

open CommandLine

namespace Planner

/-- What a planner shows once it has been mounted. -/
theorem location_run {c : Configuration} {location : Url} {now : Instant} {p : Planner}
    (hStart : start c location now = .ok p) {events : List Event} (hMount : .mount ∈ events) :
    (p.run events).bar.location = c.linkFormat.link location (p.run events).query := by
  obtain ⟨place, -, hRequests⟩ := start_requests hStart
  have hAnchored : (p.run events).Anchored location :=
    run_induction (anchored_start hStart) (fun _ e h => anchored_update h e) events
  have hLink := hAnchored (p.run events).query
  rw [shown_run_of_mem hMount, run_requests, hRequests] at hLink
  exact hLink

/-! ## Planners at a shared link -/

/-- A planner that starts at the link of a query has the query that the link opens. -/
theorem query_initial {q : Query} (h : q.Valid) (c : Configuration) (place base : Url)
    (now : Instant) :
    (initial c place (c.linkFormat.link base q) now).query = q.reopened now c.settings := by
  rw [initial, Link.edit_of_valid h, Query.reopened]

/-- The address bar of a planner that is shown at the link of a query. -/
theorem bar_mount_initial {q : Query} (h : q.Valid) (c : Configuration) (place base : Url)
    (now : Instant) :
    ((initial c place (c.linkFormat.link base q) now).update .mount).planner.bar =
      AddressBar.sync ⟨c.linkFormat.link base q, 0⟩ c.linkFormat (q.reopened now c.settings) := by
  rw [← query_initial h c place base now]
  rfl

/-- Where a sign is lost the address bar is overwritten with another link. -/
theorem bar_mount_of_losesSign {q : Query} (h : q.Valid) {c : Configuration}
    (hCheck : c.check = .ok ()) (place base : Url) (now : Instant)
    (hLoses : q.LosesSign c.settings) :
    ((initial c place (c.linkFormat.link base q) now).update .mount).planner.bar.location ≠
        c.linkFormat.link base q ∧
      ((initial c place (c.linkFormat.link base q) now).update .mount).planner.bar.replaced =
        1 := by
  have hOther : c.linkFormat.link base (q.reopened now c.settings) ≠ c.linkFormat.link base q := by
    rw [Ne, Link.link_eq_iff,
      Query.pairs_reopened_iff c.linkFormat h (Query.valid_start hCheck now), not_not]
    exact hLoses
  rw [bar_mount_initial h, AddressBar.sync_location, AddressBar.sync_replaced, LinkFormat.link_link,
    if_neg hOther]
  exact ⟨hOther, rfl⟩

/-- The address bar is left alone exactly where no sign is lost. -/
theorem bar_mount_iff {q : Query} (h : q.Valid) {c : Configuration} (hCheck : c.check = .ok ())
    (place base : Url) (now : Instant) :
    ((initial c place (c.linkFormat.link base q) now).update .mount).planner.bar =
      ⟨c.linkFormat.link base q, 0⟩ ↔ ¬ q.LosesSign c.settings := by
  rw [bar_mount_initial h, AddressBar.sync, LinkFormat.link_link,
    ← Query.pairs_reopened_iff c.linkFormat h (Query.valid_start hCheck now), ← Link.link_eq_iff]
  split
  case isTrue hSame => exact ⟨fun _ => hSame, fun _ => rfl⟩
  case isFalse hOther =>
    exact ⟨fun hBar => absurd (congrArg AddressBar.replaced hBar) (Nat.succ_ne_zero 0),
      fun hSame => absurd hSame hOther⟩

/-! ## The command -/

/-- An edit without values does nothing. -/
theorem run_unedited (p : Planner) :
    p.run [.edit {}, .mount] = (p.update .mount).planner := rfl

/-- The link of a query is written where the query is edited and then shown. -/
theorem shared_eq {c : Configuration} {now : Instant} {link : Option String} {start : Planner}
    (hAt : plannerAt c now link = .ok start) (e : Edit) :
    shared c now e link =
      .ok ⟨line (start.run [.edit e, .mount]).bar.location.text, ""⟩ := by
  rw [shared, hAt]
  rfl

theorem line_inj {s t : String} (h : line s = line t) : s = t := by
  have hLists := congrArg String.toList h
  simp only [line, String.toList_append, List.append_cancel_right_eq] at hLists
  exact String.toList_injective hLists

/-- The planner that is shown at the link of a query has the request of the query. -/
theorem request_mount_initial {q : Query} (h : q.Valid) {c : Configuration}
    (hCheck : c.check = .ok ()) (place base : Url) (now : Instant)
    (hSigns : ¬ q.LosesSign c.settings) (hEnds : q.origin.isSome ∨ q.destination = none) :
    ((initial c place (c.linkFormat.link base q) now).update .mount).planner.request =
        Requests.canonical ⟨c.linkFormat, place, c.keepsPaths⟩ q ∧
      ((initial c place (c.linkFormat.link base q) now).update .mount).planner.query =
        { q with auxiliaryDistance := none } := by
  have hQuery : ((initial c place (c.linkFormat.link base q) now).update .mount).planner.query =
      { q with auxiliaryDistance := none } := by
    rw [← Query.reopened_eq h (Query.valid_start hCheck now) hSigns hEnds,
      ← query_initial h c place base now]
    rfl
  refine ⟨?_, hQuery⟩
  rw [request, hQuery]
  rfl

/-- A planner starts at one location. -/
theorem location_eq_of_start {c : Configuration} {location location' : Url} {now : Instant}
    {p : Planner} (h : start c location now = .ok p) (h' : start c location' now = .ok p) :
    location = location' := by
  obtain ⟨place, -, hInitial⟩ := start_eq_ok h
  obtain ⟨place', -, hInitial'⟩ := start_eq_ok h'
  exact congrArg (·.bar.location) (hInitial.symm.trans hInitial')

/-- A command starts at a URL that has been read. -/
theorem plannerAt_eq_ok {c : Configuration} {now : Instant} {link : Option String} {p : Planner}
    (h : plannerAt c now link = .ok p) :
    ∃ location, location.Written ∧ start c location now = .ok p := by
  cases link with
  | some s =>
    obtain ⟨location, hLocation, hStart⟩ := Checks.bind_eq_ok.mp h
    exact ⟨location, Url.written_of_resolve (Checks.mapError_eq_ok.mp hLocation), hStart⟩
  | none =>
    obtain ⟨location, hLocation, hStart⟩ := Checks.bind_eq_ok.mp h
    exact ⟨location, Url.written_of_resolve (Checks.mapError_eq_ok.mp hLocation), hStart⟩

/-- The link that is written where a link is opened and nothing is edited. -/
theorem shared_unedited {c : Configuration} (hCheck : c.check = .ok ()) {s : String}
    {location : Url} (hReads : Url.ofText s = .ok location) (now : Instant) :
    ∃ place, shared c now {} (some s) =
      .ok ⟨line (c.linkFormat.link location (initial c place location now).query).text, ""⟩ := by
  obtain ⟨place, hPlace⟩ := (Configuration.checked_of_check hCheck).routePlace
  have hAt : plannerAt c now (some s) = .ok (initial c place location now) := by
    rw [plannerAt, hReads]
    exact start_of_routePlace hPlace _ now
  refine ⟨place, ?_⟩
  rw [shared_eq hAt, run_unedited]
  show Except.ok (Output.mk (line (AddressBar.sync ⟨location, 0⟩ c.linkFormat
    (initial c place location now).query).location.text) "") = _
  rw [AddressBar.sync_location]

/-- A link on a URL that has been read is written once more exactly where no sign is lost and the
URL is not a file on a host whose path begins with a drive letter. -/
theorem shared_again_iff {q : Query} (h : q.Valid) {c : Configuration} (hCheck : c.check = .ok ())
    {base : Url} (hBase : base.Written) (now : Instant) :
    shared c now {} (some (c.linkFormat.link base q).text) =
        .ok ⟨line (c.linkFormat.link base q).text, ""⟩ ↔
      ¬ q.LosesSign c.settings ∧ base.losesHost = false := by
  cases hHost : base.losesHost with
  | true =>
    -- No query makes the file that is read instead the same text, whatever its link opens.
    obtain ⟨v, hReads, hOther⟩ := Url.ofText_of_losesHost hBase hHost
      ((c.linkFormat.pairs q).map fun pair => (pair.1.toList, pair.2.toList))
    obtain ⟨place, hShared⟩ := shared_unedited hCheck hReads now
    rw [LinkFormat.link, hShared]
    refine ⟨fun hSame => ?_, fun hNone => absurd hNone.2 (by decide)⟩
    exact absurd (line_inj (congrArg Output.outcome (Except.ok.inj hSame))) (hOther _)
  | false =>
    obtain ⟨place, hShared⟩ := shared_unedited hCheck (Url.ofText_withPairs hBase hHost _) now
    rw [← LinkFormat.link] at hShared
    rw [hShared, query_initial h, LinkFormat.link_link, and_iff_left rfl,
      ← Query.pairs_reopened_iff c.linkFormat h (Query.valid_start hCheck now),
      ← @Link.link_eq_iff _ base]
    constructor
    · intro hSame
      exact Link.link_eq_of_text_eq (line_inj (congrArg Output.outcome (Except.ok.inj hSame)))
    · intro hSame
      rw [hSame]

/-- **Shared links stay as they are.** A planner that starts at what the address bar of a planner
shows and is shown leaves the address bar alone, unless the link loses the sign of a weight. It
then has the same query, but for the auxiliary distance, and the same request, unless the only
endpoint of the query is a destination. And the command that writes links writes a link that it
has written once more, unless a sign is lost or the link is on a file on a host whose path begins
with a drive letter, which is read without the host. -/
theorem sharing {c : Configuration} (hCheck : c.check = .ok ()) {location : Url} {now : Instant}
    {p : Planner} (hStart : start c location now = .ok p) (now' : Instant) :
    (∀ events, .mount ∈ events → ∃ p', start c (p.run events).bar.location now' = .ok p' ∧
        ((p'.update .mount).planner.bar = ⟨(p.run events).bar.location, 0⟩ ↔
          ¬ (p.run events).query.LosesSign c.settings) ∧
        (¬ (p.run events).query.LosesSign c.settings →
          (p.run events).query.origin.isSome ∨ (p.run events).query.destination = none →
            (p'.update .mount).planner.request = (p.run events).request ∧
              (p'.update .mount).planner.query =
                { (p.run events).query with auxiliaryDistance := none })) ∧
      ∀ link e, plannerAt c now link = .ok p →
        shared c now e link =
            .ok ⟨line (p.run [.edit e, .mount]).bar.location.text, ""⟩ ∧
          (shared c now' {} (some (p.run [.edit e, .mount]).bar.location.text) =
              shared c now e link ↔
            ¬ (p.run [.edit e, .mount]).query.LosesSign c.settings ∧
              location.losesHost = false) := by
  obtain ⟨place, hPlace, hRequests⟩ := start_requests hStart
  refine ⟨fun events hMount => ?_, fun link e hAt => ⟨shared_eq hAt e, ?_⟩⟩
  · have hValid := valid_run hCheck hStart events
    rw [location_run hStart hMount]
    refine ⟨_, start_of_routePlace hPlace _ now', bar_mount_iff hValid hCheck place location now',
      fun hSigns hEnds => ?_⟩
    have hRequest : (p.run events).request =
        Requests.canonical ⟨c.linkFormat, place, c.keepsPaths⟩ (p.run events).query := by
      rw [request, run_requests, hRequests]
    rw [hRequest]
    exact request_mount_initial hValid hCheck place location now' hSigns hEnds
  · have hMount : Event.mount ∈ [.edit e, .mount] := List.mem_cons_of_mem _ List.mem_cons_self
    have hWritten : location.Written := by
      obtain ⟨location', hWritten, hStart'⟩ := plannerAt_eq_ok hAt
      rwa [location_eq_of_start hStart hStart']
    rw [shared_eq hAt, location_run hStart hMount]
    exact shared_again_iff (valid_run hCheck hStart _) hCheck hWritten now'

/-- The usual trip is shared on the page of the planner. -/
theorem sharing_usual : Configuration.check {} = .ok () ∧ ∃ p',
    start {} (usual.run [.mount, .edit usualTrip]).bar.location newYear = .ok p' ∧
      (p'.update .mount).planner.bar = ⟨(usual.run [.mount, .edit usualTrip]).bar.location, 0⟩ ∧
      (p'.update .mount).planner.request = (usual.run [.mount, .edit usualTrip]).request := by
  have hCheck : Configuration.check {} = .ok () := by decide +kernel
  have hSigns : ¬ (usual.run [.mount, .edit usualTrip]).query.LosesSign Settings.usual := by
    decide +kernel
  obtain ⟨p', hStart, hBar, hQuery⟩ :=
    (sharing hCheck start_usual newYear).1 [.mount, .edit usualTrip] (by simp)
  exact ⟨hCheck, p', hStart, hBar.mpr hSigns, (hQuery hSigns (Or.inl (by decide +kernel))).1⟩

theorem routePlace_settings (c : Configuration) (s : Settings) :
    ({ c with settings := s } : Configuration).routePlace = c.routePlace := rfl

/-- The usual configuration, but the way to the first stop does not count. -/
def weightless : Configuration := { settings := { Settings.usual with accessWeight := .zero } }

/-- Somebody makes the way to the first stop count, and then counts it as zero with a minus sign. -/
def unweighing : List Event :=
  [.mount, .edit { accessWeight := some (.ofInt 1) },
    .edit { accessWeight := some (.ofRank true 0) }]

/-- The link that says so opens a planner whose default is zero without a sign. That one overwrites
the address bar as soon as it is shown. -/
theorem unshared_usual : weightless.check = .ok () ∧ ∃ p p',
    start weightless usualPage newYear = .ok p ∧ .mount ∈ unweighing ∧
      start weightless (p.run unweighing).bar.location newYear = .ok p' ∧
      (p'.update .mount).planner.bar.location ≠ (p.run unweighing).bar.location ∧
      (p'.update .mount).planner.bar.replaced = 1 := by
  have hCheck : weightless.check = .ok () := by decide +kernel
  have hPlace : weightless.routePlace = .ok usualRoutePlace :=
    (routePlace_settings {} _).trans routePlace_usual
  have hStart := start_of_routePlace hPlace usualPage newYear
  have hMount : Event.mount ∈ unweighing := List.mem_cons_self
  have hLoses : ((initial weightless usualRoutePlace usualPage newYear).run
      unweighing).query.LosesSign weightless.settings := by decide +kernel
  refine ⟨hCheck, _, _, hStart, hMount, start_of_routePlace hPlace _ newYear, ?_⟩
  rw [location_run hStart hMount]
  exact bar_mount_of_losesSign (valid_run hCheck hStart _) hCheck _ _ _ hLoses

end Planner

end TripPlanner
