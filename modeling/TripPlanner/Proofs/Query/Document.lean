import TripPlanner.CommandLine.Output
import TripPlanner.Proofs.Json.Records
import TripPlanner.Proofs.Json.Texts
import TripPlanner.Proofs.Link.Acceptance
import TripPlanner.Proofs.Time.Reading
import TripPlanner.Proofs.Time.Spans

/-!
# Edits written and read again

An edit is written with the members that it says something about, and a member that is missing
leaves its field alone when it is read. So an edit is read from its own text as it is
(`Edit.read?_text`), whichever fields it changes, clears or leaves alone. What it takes to read an
edit is said member by member (`Edit.Said`): null clears an endpoint or the auxiliary distance, and
leaves any other field alone.
-/

namespace TripPlanner

open Json

/-! ## Values of fields -/

theorem Coordinate.shape_value {r inner : Reading} (hInner : r.inner? = some inner)
    (c : Coordinate) : Coordinate.shape r (.ofValue c.value) = some c := by
  have hFields : Fields.read? ["lat", "lon"] r (.ofValue c.value) =
      some ⟨Members.trees [("lat", .real c.lat), ("lon", .real c.lon)], false, inner⟩ :=
    Fields.read?_ofValue hInner (show ["lat", "lon"].Nodup by decide) (by simp)
  simp only [shape, hFields, Option.bind_eq_bind, Option.bind_some]
  rfl

theorem Coordinate.value_ne_null (c : Coordinate) : c.value ≠ .null := by
  rw [value]
  nofun

theorem Instant.shape_value (r : Reading) {t : Instant} (h : t.Regular) :
    Instant.shape r (.ofValue t.value) = some t := Instant.ofText?_toFraction h

theorem TimeSpan.shape_value (r : Reading) (d : TimeSpan) :
    TimeSpan.shape r (.ofValue d.value) = some d :=
  congrArg Except.toOption (TimeSpan.ofText_text d)

theorem TimeMode.shape_value (r : Reading) (m : TimeMode) :
    Named.shape TimeMode r (.ofValue (Named.value m)) = some m := by
  cases m <;> rfl

namespace Edit

variable {α : Type} {fields : Fields} {name : String} {shape : Shape α}

/-! ## Members of edits -/

/-- What a record says about a field that null leaves alone. -/
def Sets (fields : Fields) (name : String) (shape : Shape α) (new : Option α) : Prop :=
  match fields.known.lookup name with
  | none => new = none
  | some .null => new = none
  | some t => ∃ a, shape fields.reading t = some a ∧ new = some a

/-- What a record says about a field that null clears. -/
def Clears (fields : Fields) (name : String) (shape : Shape α) (new : Option (Option α)) : Prop :=
  match fields.known.lookup name with
  | none => new = none
  | some .null => new = some none
  | some t => ∃ a, shape fields.reading t = some a ∧ new = some (some a)

theorem setting_eq_some_iff {new : Option α} :
    setting fields name shape = some new ↔ Sets fields name shape new := by
  rw [setting, Fields.given, Sets]
  cases fields.known.lookup name with
  | none => exact Option.some_inj.trans eq_comm
  | some t =>
    cases t with
    | null => exact Option.some_inj.trans eq_comm
    | _ => simp [Shape.optional, eq_comm]

theorem clearing_eq_some_iff {new : Option (Option α)} :
    clearing fields name shape = some new ↔ Clears fields name shape new := by
  rw [clearing, Fields.given, Clears]
  cases fields.known.lookup name with
  | none => exact Option.some_inj.trans eq_comm
  | some t =>
    cases t with
    | null => exact Option.some_inj.trans eq_comm
    | _ =>
      simp only [Shape.refine, Shape.optional, Option.bind_eq_some_iff, Option.map_eq_some_iff]
      grind

/-- An edit says what the members of a record say, each about its own field. -/
structure Said (fields : Fields) (e : Edit) : Prop where
  origin : Clears fields "origin" Coordinate.shape e.origin
  destination : Clears fields "destination" Coordinate.shape e.destination
  time : Sets fields "departure_or_arrival_time" Instant.shape e.time
  timeMode : Sets fields "time_mode" (Named.shape TimeMode) e.timeMode
  accessProfile : Sets fields "access_profile" Shape.text e.accessProfile
  egressProfile : Sets fields "egress_profile" Shape.text e.egressProfile
  accessWeight : Sets fields "beta_access_time" Shape.number e.accessWeight
  egressWeight : Sets fields "beta_egress_time" Shape.number e.egressWeight
  rangeQuery : Sets fields "range_query" Shape.bool e.rangeQuery
  rangeSpan : Sets fields "range_query_duration" TimeSpan.shape e.rangeSpan
  streetLimit : Sets fields "limit_street_time" TimeSpan.shape e.streetLimit
  ignoreTransfers : Sets fields "ignore_transfers" Shape.bool e.ignoreTransfers
  auxiliaryDistance : Clears fields "auxiliary_distance" Shape.number e.auxiliaryDistance

/-- What it takes to read an edit. -/
theorem shape_eq_some_iff {r : Reading} {t : Tree} {e : Edit} :
    Edit.shape r t = some e ↔ ∃ fields, Fields.read? Query.names r t = some fields ∧
      e.Said fields := by
  -- The steps are undone one by one: rewriting under all of them at once does not come to an end.
  constructor
  · intro h
    obtain ⟨fields, hFields, h⟩ := Option.bind_eq_some_iff.mp h
    obtain ⟨_, hOrigin, h⟩ := Option.bind_eq_some_iff.mp h
    obtain ⟨_, hDestination, h⟩ := Option.bind_eq_some_iff.mp h
    obtain ⟨_, hTime, h⟩ := Option.bind_eq_some_iff.mp h
    obtain ⟨_, hTimeMode, h⟩ := Option.bind_eq_some_iff.mp h
    obtain ⟨_, hAccessProfile, h⟩ := Option.bind_eq_some_iff.mp h
    obtain ⟨_, hEgressProfile, h⟩ := Option.bind_eq_some_iff.mp h
    obtain ⟨_, hAccessWeight, h⟩ := Option.bind_eq_some_iff.mp h
    obtain ⟨_, hEgressWeight, h⟩ := Option.bind_eq_some_iff.mp h
    obtain ⟨_, hRangeQuery, h⟩ := Option.bind_eq_some_iff.mp h
    obtain ⟨_, hRangeSpan, h⟩ := Option.bind_eq_some_iff.mp h
    obtain ⟨_, hStreetLimit, h⟩ := Option.bind_eq_some_iff.mp h
    obtain ⟨_, hIgnoreTransfers, h⟩ := Option.bind_eq_some_iff.mp h
    obtain ⟨_, hAuxiliaryDistance, h⟩ := Option.bind_eq_some_iff.mp h
    cases h
    refine ⟨fields, hFields, ?_⟩
    constructor
    case origin => exact clearing_eq_some_iff.mp hOrigin
    case destination => exact clearing_eq_some_iff.mp hDestination
    case time => exact setting_eq_some_iff.mp hTime
    case timeMode => exact setting_eq_some_iff.mp hTimeMode
    case accessProfile => exact setting_eq_some_iff.mp hAccessProfile
    case egressProfile => exact setting_eq_some_iff.mp hEgressProfile
    case accessWeight => exact setting_eq_some_iff.mp hAccessWeight
    case egressWeight => exact setting_eq_some_iff.mp hEgressWeight
    case rangeQuery => exact setting_eq_some_iff.mp hRangeQuery
    case rangeSpan => exact setting_eq_some_iff.mp hRangeSpan
    case streetLimit => exact setting_eq_some_iff.mp hStreetLimit
    case ignoreTransfers => exact setting_eq_some_iff.mp hIgnoreTransfers
    case auxiliaryDistance => exact clearing_eq_some_iff.mp hAuxiliaryDistance
  · rintro ⟨fields, hFields, h⟩
    refine Option.bind_eq_some_iff.mpr ⟨fields, hFields, ?_⟩
    refine Option.bind_eq_some_iff.mpr ⟨_, clearing_eq_some_iff.mpr h.origin, ?_⟩
    refine Option.bind_eq_some_iff.mpr ⟨_, clearing_eq_some_iff.mpr h.destination, ?_⟩
    refine Option.bind_eq_some_iff.mpr ⟨_, setting_eq_some_iff.mpr h.time, ?_⟩
    refine Option.bind_eq_some_iff.mpr ⟨_, setting_eq_some_iff.mpr h.timeMode, ?_⟩
    refine Option.bind_eq_some_iff.mpr ⟨_, setting_eq_some_iff.mpr h.accessProfile, ?_⟩
    refine Option.bind_eq_some_iff.mpr ⟨_, setting_eq_some_iff.mpr h.egressProfile, ?_⟩
    refine Option.bind_eq_some_iff.mpr ⟨_, setting_eq_some_iff.mpr h.accessWeight, ?_⟩
    refine Option.bind_eq_some_iff.mpr ⟨_, setting_eq_some_iff.mpr h.egressWeight, ?_⟩
    refine Option.bind_eq_some_iff.mpr ⟨_, setting_eq_some_iff.mpr h.rangeQuery, ?_⟩
    refine Option.bind_eq_some_iff.mpr ⟨_, setting_eq_some_iff.mpr h.rangeSpan, ?_⟩
    refine Option.bind_eq_some_iff.mpr ⟨_, setting_eq_some_iff.mpr h.streetLimit, ?_⟩
    refine Option.bind_eq_some_iff.mpr ⟨_, setting_eq_some_iff.mpr h.ignoreTransfers, ?_⟩
    refine Option.bind_eq_some_iff.mpr ⟨_, clearing_eq_some_iff.mpr h.auxiliaryDistance, ?_⟩
    rfl

/-! ## Edits read back -/

/-- The members of an edit, where there is something to say. -/
def entries (e : Edit) : List (String × Option Value) :=
  [("origin", e.origin.map (.optional Coordinate.value)),
    ("destination", e.destination.map (.optional Coordinate.value)),
    ("departure_or_arrival_time", e.time.map Instant.value),
    ("time_mode", e.timeMode.map Named.value),
    ("access_profile", e.accessProfile.map .text),
    ("egress_profile", e.egressProfile.map .text),
    ("beta_access_time", e.accessWeight.map .real),
    ("beta_egress_time", e.egressWeight.map .real),
    ("range_query", e.rangeQuery.map .bool),
    ("range_query_duration", e.rangeSpan.map TimeSpan.value),
    ("limit_street_time", e.streetLimit.map TimeSpan.value),
    ("ignore_transfers", e.ignoreTransfers.map .bool),
    ("auxiliary_distance", e.auxiliaryDistance.map (.optional .real))]

theorem member_eq (name : String) (toValue : α → Value) (new : Option α) :
    member name toValue new = ((new.map toValue).map fun v => (name, v)).toList := by
  cases new <;> rfl

theorem value_eq (e : Edit) : e.value = .record (Members.present e.entries) := by
  simp only [value, member_eq, Members.present, entries, List.flatMap_cons, List.flatMap_nil,
    List.append_nil, List.append_assoc]

theorem names_entries (e : Edit) : e.entries.map Prod.fst = Query.names := rfl

theorem nodup_entries (e : Edit) : (e.entries.map Prod.fst).Nodup := by
  rw [names_entries]
  decide

/-- The record that an edit is written as. -/
def written (e : Edit) : Fields := ⟨(Members.present e.entries).trees, false, .within 1⟩

theorem read?_value (e : Edit) :
    Fields.read? Query.names .document (.ofValue e.value) = some e.written := by
  have hNames := Members.sublist_present e.entries
  rw [value_eq]
  refine Fields.read?_ofValue (Reading.within_inner? 0 (by decide))
    (hNames.nodup e.nodup_entries) fun m hMem => ?_
  rw [← e.names_entries]
  exact hNames.subset (List.mem_map_of_mem hMem)

theorem lookup_written (e : Edit) {v : Option Value} (h : (name, v) ∈ e.entries) :
    e.written.known.lookup name = v.map Tree.ofValue := by
  rw [written, Members.lookup_trees, Members.lookup_present e.nodup_entries h]

theorem ofValue_ne_null {v : Value} (h : v ≠ .null) : Tree.ofValue v ≠ .null := by
  cases v with
  | null => exact absurd rfl h
  | _ => exact nofun

theorem sets_written (e : Edit) (toValue : α → Value) {new : Option α}
    (h : (name, new.map toValue) ∈ e.entries) (hNull : ∀ a, toValue a ≠ .null)
    (hRead : ∀ a ∈ new, shape (.within 1) (.ofValue (toValue a)) = some a) :
    Sets e.written name shape new := by
  rw [Sets, e.lookup_written h]
  cases new with
  | none => rfl
  | some a =>
    -- Only whether it is null matters of what is written, before its own reader has it.
    have hTree := ofValue_ne_null (hNull a)
    have hRead := hRead a rfl
    simp only [Option.map_some]
    generalize Tree.ofValue (toValue a) = t at hTree hRead
    cases t with
    | null => exact absurd rfl hTree
    | _ => exact ⟨a, hRead, rfl⟩

theorem clears_written (e : Edit) (toValue : α → Value) {new : Option (Option α)}
    (h : (name, new.map (.optional toValue)) ∈ e.entries) (hNull : ∀ a, toValue a ≠ .null)
    (hRead : ∀ a, shape (.within 1) (.ofValue (toValue a)) = some a) :
    Clears e.written name shape new := by
  rw [Clears, e.lookup_written h]
  cases new with
  | none => rfl
  | some place =>
    cases place with
    | none => rfl
    | some a =>
      have hTree := ofValue_ne_null (hNull a)
      have hRead := hRead a
      simp only [Option.map_some, Value.optional]
      generalize Tree.ofValue (toValue a) = t at hTree hRead
      cases t with
      | null => exact absurd rfl hTree
      | _ => exact ⟨a, hRead, rfl⟩

theorem said_written {e : Edit} (h : ∀ t ∈ e.time, t.Regular) : e.Said e.written := by
  have hInner := Reading.within_inner? 1 (by decide)
  constructor
  case origin =>
    exact e.clears_written Coordinate.value (by simp [entries]) Coordinate.value_ne_null
      (Coordinate.shape_value hInner)
  case destination =>
    exact e.clears_written Coordinate.value (by simp [entries]) Coordinate.value_ne_null
      (Coordinate.shape_value hInner)
  case time =>
    exact e.sets_written Instant.value (by simp [entries]) (fun _ => nofun)
      fun t hMem => Instant.shape_value _ (h t hMem)
  case timeMode =>
    exact e.sets_written Named.value (by simp [entries]) (fun _ => nofun)
      fun m _ => TimeMode.shape_value _ m
  case accessProfile =>
    exact e.sets_written .text (by simp [entries]) (fun _ => nofun) fun _ _ => rfl
  case egressProfile =>
    exact e.sets_written .text (by simp [entries]) (fun _ => nofun) fun _ _ => rfl
  case accessWeight =>
    exact e.sets_written .real (by simp [entries]) (fun _ => nofun) fun _ _ => rfl
  case egressWeight =>
    exact e.sets_written .real (by simp [entries]) (fun _ => nofun) fun _ _ => rfl
  case rangeQuery =>
    exact e.sets_written .bool (by simp [entries]) (fun _ => nofun) fun _ _ => rfl
  case rangeSpan =>
    exact e.sets_written TimeSpan.value (by simp [entries]) (fun _ => nofun)
      fun d _ => TimeSpan.shape_value _ d
  case streetLimit =>
    exact e.sets_written TimeSpan.value (by simp [entries]) (fun _ => nofun)
      fun d _ => TimeSpan.shape_value _ d
  case ignoreTransfers =>
    exact e.sets_written .bool (by simp [entries]) (fun _ => nofun) fun _ _ => rfl
  case auxiliaryDistance =>
    exact e.clears_written .real (by simp [entries]) (fun _ => nofun) fun _ => rfl

theorem shape_value {e : Edit} (h : ∀ t ∈ e.time, t.Regular) :
    Edit.shape .document (.ofValue e.value) = some e :=
  shape_eq_some_iff.mpr ⟨e.written, e.read?_value, said_written h⟩

/-- An edit is read from its own text, its blanks aside. -/
theorem read?_text {e : Edit} (hTime : ∀ t ∈ e.time, t.Regular) (hLegible : e.value.Legible) :
    Json.read? Edit.shape e.value.compact = some e ∧
      ∀ after : String, (∀ c ∈ after.toList, Json.isSpace c = true) →
        Json.read? Edit.shape (e.value.pretty ++ after) = some e :=
  ⟨(read?_compact Edit.shape hLegible).trans (shape_value hTime), fun _ hBlank =>
    (read?_pretty Edit.shape hLegible hBlank).trans (shape_value hTime)⟩

/-- The time of a link is one that has been read. -/
theorem regular_of_link (u : Url) : ∀ t ∈ (Link.edit u).time, t.Regular := by
  have hTime : (Link.edit u).time = Link.last Link.timeName Instant.ofText? (Link.pairs u) := rfl
  rw [hTime]
  exact Link.last_holds Instant.regular_of_ofText?

/-- **Edits are read as they were written.** An edit whose time was read from a text and whose
numbers are legible is read from its text, be it compact or indented. Any record is read as the edit
that its members speak of: a member that is missing leaves its field alone, null clears an endpoint
or the auxiliary distance and leaves any other field alone, and every other value is read as the new
one. So what is told of a link makes of every query what the link itself does, from the beginning of
a planner that starts there. -/
theorem survives_writing :
    (∀ e : Edit, (∀ t ∈ e.time, ∃ s, Instant.ofText? s = some t) → e.value.Legible →
      Json.read? Edit.shape e.value.compact = some e ∧
        Json.read? Edit.shape e.value.pretty = some e) ∧
      (∀ (r : Reading) (t : Tree) (e : Edit), Edit.shape r t = some e ↔
        ∃ fields, Fields.read? Query.names r t = some fields ∧ e.Said fields) ∧
      ∀ s : String, (Link.edit (Link.ofText s)).value.Legible → ∃ e,
        Json.read? Edit.shape (CommandLine.decoded s).outcome = some e ∧
          (∀ q : Query, q.apply e = q.apply (Link.edit (Link.ofText s))) ∧
          ∀ c now p, Planner.start c (Link.ofText s) now = .ok p →
            p.query = ((Query.start now c.settings).apply e).1 := by
  refine ⟨fun e hTime hLegible => ?_, fun _ _ _ => shape_eq_some_iff, fun s hLegible => ?_⟩
  · have hRegular : ∀ t ∈ e.time, t.Regular := by
      intro t hMem
      obtain ⟨s, hText⟩ := hTime t hMem
      exact Instant.regular_of_ofText? hText
    obtain ⟨hCompact, hPretty⟩ := read?_text hRegular hLegible
    refine ⟨hCompact, ?_⟩
    rw [← hPretty "" nofun, String.append_empty]
  · refine ⟨Link.edit (Link.ofText s), ?_, fun _ => rfl, fun c now p hStart => ?_⟩
    · have hBlank : ∀ c ∈ "\n".toList, isSpace c = true := List.forall_mem_singleton.mpr rfl
      have hRead := (read?_text (regular_of_link (Link.ofText s)) hLegible).2 "\n" hBlank
      exact hRead
    · obtain ⟨place, -, rfl⟩ := Planner.start_eq_ok hStart
      rw [Planner.initial]

theorem legible_one : (Value.real (.ofInt 1)).Legible := by
  have hWrite : (Json.Number.real (.ofInt 1)).write =
      Numeral.write ⟨false, ['1'], ['0'], none⟩ := by decide +kernel
  have hProper : Numeral.Proper ⟨false, ['1'], ['0'], none⟩ :=
    ⟨rfl, List.forall_mem_singleton.mpr rfl, List.forall_mem_singleton.mpr rfl⟩
  have hNumber : (Json.Number.real (.ofInt 1)).Legible :=
    (Number.legible_iff hProper hWrite).mpr (by decide +kernel)
  exact Value.legible_number.mpr hNumber

/-- An edit that clears one endpoint and the auxiliary distance, sets the other endpoint and the
time and leaves all else alone is read as it is. What is told of a link with one point is read as
the edit of its origin. -/
theorem survives_writing_usual :
    let place : Coordinate := ⟨.ofInt 1, .ofInt 1⟩
    let e : Edit := { origin := some none, destination := some (some place),
                      time := some Planner.newYear, auxiliaryDistance := some none }
    Json.read? Edit.shape e.value.compact = some e ∧
      ∃ e', Json.read? Edit.shape (CommandLine.decoded "?point=1,1").outcome = some e' ∧
        ∀ q : Query, q.apply e' = q.apply { origin := some (some place) } := by
  intro place e
  have hPlace : place.value.Legible := by
    simp [place, Coordinate.value, Value.legible_record, legible_one]
  have hTime : ∀ t ∈ e.time, ∃ s, Instant.ofText? s = some t := by
    rintro t ⟨⟩
    exact ⟨Planner.newYear.toSeconds, Instant.ofText?_toSeconds rfl⟩
  have hLegible : e.value.Legible := by
    simpa [e, value_eq, entries, Members.present, Value.optional, Instant.value,
      Value.legible_record] using hPlace
  have hLink : Link.edit (Link.ofText "?point=1,1") = { origin := some (some place) } := by
    decide +kernel
  have hLinkLegible : (Link.edit (Link.ofText "?point=1,1")).value.Legible := by
    rw [hLink]
    simpa [value_eq, entries, Members.present, Value.optional, Value.legible_record] using hPlace
  obtain ⟨e', hRead, hSame, -⟩ := survives_writing.2.2 "?point=1,1" hLinkLegible
  exact ⟨(survives_writing.1 e hTime hLegible).1, e', hRead, fun q => hLink ▸ hSame q⟩

end Edit

end TripPlanner
