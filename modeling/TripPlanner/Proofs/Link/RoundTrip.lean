import TripPlanner.Proofs.Binary64.Reading
import TripPlanner.Proofs.Planner.Start
import TripPlanner.Proofs.Query.Validity
import TripPlanner.Proofs.Text.Splitting
import TripPlanner.Proofs.Time.Reading
import TripPlanner.Proofs.Time.Spans
import TripPlanner.Proofs.Url.Form

/-!
# Links read back

Every value that a query can come to have is read from its link as it is: coordinates and weights to
the last bit (`Coordinate.ofText_display`, `weight?_display`), times in every year
(`Instant.ofText?_toSeconds`), time spans in the text they were given in (`TimeSpan.ofText_text`).
No pair of a link is left aside, so a link says exactly what its query is (`edit_link`), but for
what no link tells: the auxiliary distance, and which end an only endpoint is.
-/

namespace TripPlanner

open Text

/-! ## Values -/

theorem Binary64.display_toList (x : Binary64) : x.display.toList = Layout.plain.number x :=
  String.toList_ofList

theorem isBlank_of_isNumeric {c : Char} (h : Layout.isNumeric c = true) : isBlank c = false := by
  simp only [Layout.isNumeric, Bool.or_eq_true, decide_eq_true_eq] at h
  rcases h with (h | rfl) | rfl
  · exact isBlank_of_isDigit h
  · rfl
  · rfl

theorem Binary64.isBlank_of_mem_display {x : Binary64} (h : x.isFinite = true) {c : Char}
    (hMem : c ∈ x.display.toList) : isBlank c = false := by
  rw [display_toList] at hMem
  exact isBlank_of_isNumeric (isNumeric_of_mem_number h hMem)

namespace Coordinate

theorem number_display {x : Binary64} (h : x.isFinite = true) :
    number x.display.toList = .ok x := by
  rw [number, trim_eq_self fun _ => x.isBlank_of_mem_display h, x.display_toList,
    Binary64.ofText?_number h]

/-- A coordinate on the globe is read as it was written. -/
theorem ofText_display {c : Coordinate} (h : checked c.lat c.lon = .ok c) :
    ofText c.display = .ok c := by
  obtain ⟨-, hLat, hLon⟩ := checked_eq_ok h
  have hComma : ∀ {x : Binary64}, x.isFinite = true → ',' ∉ x.display.toList := fun hFinite hMem =>
    absurd (Binary64.isNumeric_of_mem_number hFinite (Binary64.display_toList _ ▸ hMem)) (by decide)
  have hText : c.display.toList = c.lat.display.toList ++ ',' :: c.lon.display.toList := by
    simp [display]
  have hSplit : splitAt ',' c.display.toList = [c.lat.display.toList, c.lon.display.toList] := by
    rw [hText, splitAt_append (hComma hLat), splitAt_of_notMem (hComma hLon)]
  rw [ofText, hSplit]
  simp only [number_display hLat, number_display hLon]
  exact h

theorem isBlank_of_mem_display {c : Coordinate} (h : checked c.lat c.lon = .ok c) {d : Char}
    (hMem : d ∈ c.display.toList) : isBlank d = false := by
  obtain ⟨-, hLat, hLon⟩ := checked_eq_ok h
  simp only [display, String.toList_append, List.mem_append] at hMem
  rcases hMem with (hMem | hMem) | hMem
  · exact Binary64.isBlank_of_mem_display hLat hMem
  · obtain rfl : d = ',' := by simpa using hMem
    rfl
  · exact Binary64.isBlank_of_mem_display hLon hMem

end Coordinate

namespace Link

theorem flag?_flag (b : Bool) : flag? (flag b) = some b := by
  cases b <;> rfl

theorem trimmed_flag (b : Bool) : trimmed (flag b) = flag b := by
  cases b <;> decide

theorem profile?_of_stable {name : String} (h : Rule.profile name = .ok name) :
    profile? name = some name := by
  rw [profile?, h]
  rfl

theorem weight?_display {x : Binary64} (h : Rule.weight x = .ok x) :
    weight? x.display = some x := by
  rw [weight?, x.display_toList, Binary64.ofText?_number (Rule.weight_eq_ok h).2, Option.bind_some,
    h]
  rfl

theorem span?_text (t : TimeSpan) : span? t.text = some t := by
  rw [span?, t.ofText_text]
  rfl

theorem point?_display {c : Coordinate} (h : Coordinate.checked c.lat c.lon = .ok c) :
    point? c.display = some c := by
  rw [point?, trimmed_eq_self fun _ => Coordinate.isBlank_of_mem_display h,
    Coordinate.ofText_display h]
  rfl

/-! ## Pairs -/

theorem pairs_link (f : LinkFormat) (base : Url) (q : Query) :
    pairs (f.link base q) = f.pairs q := by
  have hPairs : (f.link base q).pairs =
      (f.pairs q).map fun pair => (pair.1.toList, pair.2.toList) :=
    Url.Form.read_write _
  rw [pairs, hPairs, List.map_map]
  refine (List.map_congr_left fun pair _ => ?_).trans (List.map_id _)
  simp

theorem values_append (name : String) (ps qs : List (String × String)) :
    values name (ps ++ qs) = values name ps ++ values name qs :=
  List.filterMap_append

/-- Links on one base are the same where their pairs are. -/
theorem link_eq_iff {f : LinkFormat} {base : Url} {q r : Query} :
    f.link base q = f.link base r ↔ f.pairs q = f.pairs r := by
  constructor
  · intro h
    rw [← pairs_link f base q, ← pairs_link f base r, h]
  · intro h
    rw [LinkFormat.link, LinkFormat.link, h]

/-- Links on one base that are written alike are the same. -/
theorem link_eq_of_text_eq {f : LinkFormat} {base : Url} {q r : Query}
    (h : (f.link base q).text = (f.link base r).text) : f.link base q = f.link base r := by
  have hWrite : (f.link base q).write = (f.link base r).write :=
    String.ofList_injective h
  have hRest := List.append_cancel_left hWrite
  simp only [LinkFormat.link, Url.withPairs, Url.writeAuthority, Url.writePart, List.append_nil,
    List.cons.injEq, true_and, List.append_cancel_left_eq] at hRest
  rw [LinkFormat.link, LinkFormat.link, Url.withPairs, Url.withPairs, hRest]

theorem values_cons_self (name value : String) (ps : List (String × String)) :
    values name ((name, value) :: ps) = value :: values name ps :=
  List.filterMap_cons_some (f := fun pair : String × String =>
    if pair.1 = name then some pair.2 else none) (if_pos rfl)

theorem values_cons_of_ne {name : String} {pair : String × String} (h : pair.1 ≠ name)
    (ps : List (String × String)) : values name (pair :: ps) = values name ps :=
  List.filterMap_cons_none (f := fun pair : String × String =>
    if pair.1 = name then some pair.2 else none) (if_neg h)

theorem values_of_notMem {name : String} {ps : List (String × String)}
    (h : name ∉ ps.map Prod.fst) : values name ps = [] := by
  refine List.filterMap_eq_nil_iff.mpr fun pair hMem => if_neg fun hName => h ?_
  exact List.mem_map.mpr ⟨pair, hMem, hName⟩

/-- A name that does not occur again has one value. -/
theorem values_of_nodup {name value : String} {ps : List (String × String)}
    (hNodup : (ps.map Prod.fst).Nodup) (h : (name, value) ∈ ps) : values name ps = [value] := by
  induction ps with
  | nil => cases h
  | cons pair ps ih =>
    obtain ⟨hHead, hTail⟩ := List.nodup_cons.mp hNodup
    rcases List.mem_cons.mp h with rfl | hMem
    · rw [values_cons_self, values_of_notMem hHead]
    · have hOther : pair.1 ≠ name := fun hName =>
        hHead (List.mem_map.mpr ⟨_, hMem, hName.symm⟩)
      rw [values_cons_of_ne hOther, ih hTail hMem]

/-- The points of a query as pairs. -/
def pointPairs (q : Query) : List (String × String) :=
  ([q.origin, q.destination].filterMap id).map fun c => (pointName, c.display)

/-- The settings of a query as pairs. -/
def settingPairs (f : LinkFormat) (q : Query) : List (String × String) :=
  [(timeName, q.time.toSeconds), (arriveByName, flag q.timeMode.isArriveBy),
    (rangeQueryName, flag q.rangeQuery), (rangeSpanName, q.rangeSpan.text),
    (accessProfileName, q.accessProfile), (accessWeightName, q.accessWeight.display),
    (egressProfileName, q.egressProfile), (egressWeightName, q.egressWeight.display),
    (streetLimitName, q.streetLimit.text), (ignoreTransfersName, flag q.ignoreTransfers),
    (localeName, f.locale), (profileName, f.profile)]

theorem pairs_eq (f : LinkFormat) (q : Query) : f.pairs q = pointPairs q ++ settingPairs f q := rfl

theorem settingPairs_nodup (f : LinkFormat) (q : Query) :
    ((settingPairs f q).map Prod.fst).Nodup := by
  show [timeName, arriveByName, rangeQueryName, rangeSpanName, accessProfileName, accessWeightName,
    egressProfileName, egressWeightName, streetLimitName, ignoreTransfersName, localeName,
    profileName].Nodup
  decide

theorem pointName_notMem (f : LinkFormat) (q : Query) :
    pointName ∉ (settingPairs f q).map Prod.fst := by
  show pointName ∉ [timeName, arriveByName, rangeQueryName, rangeSpanName, accessProfileName,
    accessWeightName, egressProfileName, egressWeightName, streetLimitName, ignoreTransfersName,
    localeName, profileName]
  decide

theorem values_setting {name value : String} {f : LinkFormat} {q : Query}
    (h : (name, value) ∈ settingPairs f q) : values name (f.pairs q) = [value] := by
  have hPoint : name ∉ (pointPairs q).map Prod.fst := by
    intro hMem
    obtain ⟨pair, hPair, rfl⟩ := List.mem_map.mp hMem
    obtain ⟨c, -, rfl⟩ := List.mem_map.mp hPair
    exact pointName_notMem f q (List.mem_map.mpr ⟨_, h, rfl⟩)
  rw [pairs_eq, values_append, values_of_notMem hPoint, List.nil_append,
    values_of_nodup (settingPairs_nodup f q) h]

theorem values_points (f : LinkFormat) (q : Query) : values pointName (f.pairs q) =
    ([q.origin, q.destination].filterMap id).map Coordinate.display := by
  have hPoints : ∀ cs : List Coordinate,
      values pointName (cs.map fun c => (pointName, c.display)) = cs.map Coordinate.display := by
    intro cs
    induction cs with
    | nil => rfl
    | cons c cs ih => rw [List.map_cons, values_cons_self, ih, List.map_cons]
  rw [pairs_eq, values_append, values_of_notMem (pointName_notMem f q), List.append_nil,
    pointPairs, hPoints]

end Link

/-- All that a link can say about a query. An only endpoint is the first one that a link gives. -/
def Query.told (q : Query) : Edit where
  origin := (q.origin.or q.destination).map some
  destination := (q.origin.bind fun _ => q.destination).map some
  time := some q.time
  timeMode := some q.timeMode
  accessProfile := some q.accessProfile
  egressProfile := some q.egressProfile
  accessWeight := some q.accessWeight
  egressWeight := some q.egressWeight
  rangeQuery := some q.rangeQuery
  rangeSpan := some q.rangeSpan
  streetLimit := some q.streetLimit
  ignoreTransfers := some q.ignoreTransfers
  auxiliaryDistance := none

namespace Link

/-- The points of a link, read. -/
theorem points_link {q : Query} (h : q.Valid) (f : LinkFormat) :
    (values pointName (f.pairs q)).map point? =
      ([q.origin, q.destination].filterMap id).map some := by
  have hAll : ∀ c ∈ [q.origin, q.destination].filterMap id,
      (point? ∘ Coordinate.display) c = some c := by
    intro c hMem
    obtain ⟨place, hPlace, hSame⟩ := List.mem_filterMap.mp hMem
    rw [Function.comp_apply]
    have hChecked : Coordinate.checked c.lat c.lon = .ok c := by
      rcases List.mem_pair.mp hPlace with rfl | rfl
      · exact h.origin c hSame
      · exact h.destination c hSame
    exact point?_display hChecked
  rw [values_points, List.map_map]
  exact List.map_congr_left hAll

theorem last_setting {α : Type} {name value : String} {read : String → Option α} {f : LinkFormat}
    {q : Query} (h : (name, value) ∈ settingPairs f q) (hTrimmed : trimmed value = value) :
    last name read (f.pairs q) = read value := by
  rw [last, values_setting h, List.getLast?_singleton, Option.bind_some, hTrimmed]

theorem trimmed_display {x : Binary64} (h : Rule.weight x = .ok x) :
    trimmed x.display = x.display :=
  trimmed_eq_self fun _ => x.isBlank_of_mem_display (Rule.weight_eq_ok h).2

theorem trimmed_toSeconds {t : Instant} (h : t.nanos = 0) : trimmed t.toSeconds = t.toSeconds := by
  refine trimmed_eq_self fun c hMem => ?_
  have hTimely := Instant.isTimely_of_mem_toSeconds h hMem
  simp only [Instant.isTimely, Bool.or_eq_true, List.contains_iff_mem, List.mem_cons,
    List.not_mem_nil, or_false] at hTimely
  rcases hTimely with hDigit | rfl | rfl | rfl | rfl | rfl
  · exact isBlank_of_isDigit hDigit
  all_goals rfl

/-- The pairs of a query say what the query is. -/
theorem edit_of_pairs {q : Query} (h : q.Valid) (f : LinkFormat) :
    editOfPairs (f.pairs q) = q.told := by
  have hTime : last timeName Instant.ofText? (f.pairs q) = some q.time :=
    (last_setting (by simp [settingPairs]) (trimmed_toSeconds h.time)).trans
      (Instant.ofText?_toSeconds h.time)
  have hArriveBy : last arriveByName flag? (f.pairs q) = some q.timeMode.isArriveBy :=
    (last_setting (by simp [settingPairs]) (trimmed_flag _)).trans (flag?_flag _)
  have hRangeQuery : last rangeQueryName flag? (f.pairs q) = some q.rangeQuery :=
    (last_setting (by simp [settingPairs]) (trimmed_flag _)).trans (flag?_flag _)
  have hIgnoreTransfers : last ignoreTransfersName flag? (f.pairs q) = some q.ignoreTransfers :=
    (last_setting (by simp [settingPairs]) (trimmed_flag _)).trans (flag?_flag _)
  have hAccess : last accessProfileName profile? (f.pairs q) = some q.accessProfile :=
    (last_setting (by simp [settingPairs]) (Rule.profile_eq_ok h.accessProfile).1.symm).trans
      (profile?_of_stable h.accessProfile)
  have hEgress : last egressProfileName profile? (f.pairs q) = some q.egressProfile :=
    (last_setting (by simp [settingPairs]) (Rule.profile_eq_ok h.egressProfile).1.symm).trans
      (profile?_of_stable h.egressProfile)
  have hAccessWeight : last accessWeightName weight? (f.pairs q) = some q.accessWeight :=
    (last_setting (by simp [settingPairs]) (trimmed_display h.accessWeight)).trans
      (weight?_display h.accessWeight)
  have hEgressWeight : last egressWeightName weight? (f.pairs q) = some q.egressWeight :=
    (last_setting (by simp [settingPairs]) (trimmed_display h.egressWeight)).trans
      (weight?_display h.egressWeight)
  have hRangeSpan : last rangeSpanName span? (f.pairs q) = some q.rangeSpan :=
    (last_setting (by simp [settingPairs]) (trimmed_eq_self q.rangeSpan.isBlank_of_mem_text)).trans
      (span?_text _)
  have hStreetLimit : last streetLimitName span? (f.pairs q) = some q.streetLimit :=
    (last_setting (by simp [settingPairs])
      (trimmed_eq_self q.streetLimit.isBlank_of_mem_text)).trans (span?_text _)
  have hMode : TimeMode.ofArriveBy q.timeMode.isArriveBy = q.timeMode := by
    cases q.timeMode <;> rfl
  simp only [editOfPairs, points_link h, hTime, hArriveBy, hRangeQuery, hIgnoreTransfers, hAccess,
    hEgress, hAccessWeight, hEgressWeight, hRangeSpan, hStreetLimit, Option.map_some, hMode,
    Query.told]
  cases q.origin <;> cases q.destination <;> rfl

theorem edit_of_valid {q : Query} (h : q.Valid) (f : LinkFormat) (base : Url) :
    edit (f.link base q) = q.told := by
  rw [edit, pairs_link, edit_of_pairs h]

/-- A link has no more than two points. -/
theorem notices_link (f : LinkFormat) (base : Url) (q : Query) : notices (f.link base q) = [] := by
  have hLength : (values pointName (f.pairs q)).length ≤ 2 := by
    rw [values_points, List.length_map]
    exact List.length_filterMap_le _ _
  rw [notices, pairs_link]
  exact if_neg (Nat.not_lt.mpr hLength)

/-- **Links undo themselves.** Whatever query a checked configuration, a location and some edits
make, its link on any page says exactly what it is, and no pair of the link is left aside. -/
theorem edit_link {c : Configuration} (hCheck : c.check = .ok ()) (now : Instant) (location : Url)
    (edits : List Edit) (f : LinkFormat) (base : Url) :
    edit (f.link base (Query.reached c now location edits)) =
        (Query.reached c now location edits).told ∧
      notices (f.link base (Query.reached c now location edits)) = [] :=
  ⟨edit_of_valid (Query.valid_reached hCheck now location edits) f base, notices_link f base _⟩

/-- The usual user says where to go, but not from where: on the link that place is the origin. -/
theorem edit_link_usual :
    Configuration.check {} = .ok () ∧
      (edit (LinkFormat.link ⟨"en-US", "pt"⟩ Planner.usualPage (Query.reached {} Planner.newYear
          Planner.usualPage [.toDestination (some ⟨.ofInt 1, .ofInt 2⟩)]))).origin =
        some (some ⟨.ofInt 1, .ofInt 2⟩) ∧
      (edit (LinkFormat.link ⟨"en-US", "pt"⟩ Planner.usualPage (Query.reached {} Planner.newYear
          Planner.usualPage [.toDestination (some ⟨.ofInt 1, .ofInt 2⟩)]))).destination = none := by
  have hCheck : Configuration.check {} = .ok () := by decide +kernel
  have hLink := (edit_link hCheck Planner.newYear Planner.usualPage
    [.toDestination (some ⟨.ofInt 1, .ofInt 2⟩)] ⟨"en-US", "pt"⟩ Planner.usualPage).1
  rw [hLink]
  exact ⟨hCheck, by decide +kernel, by decide +kernel⟩

end Link

end TripPlanner
