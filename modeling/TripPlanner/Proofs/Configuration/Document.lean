import TripPlanner.Configuration.File
import TripPlanner.Proofs.Query.Document
import TripPlanner.Proofs.Query.Validity
import TripPlanner.Proofs.Text.Utf8
import TripPlanner.Proofs.Time.Intervals

/-!
# Configurations written and read again

A configuration is written with all its members, those of its settings included, and each of them is
read from what has been written for it. So a configuration is read from its own text as it is, and
a file with that text passes the check where the configuration did. If members are left out of the
text, at the top level or inside the settings, the configuration is read that has the usual values
in their place, and its own everywhere else (`Configuration.ofJson?_of_hasText`).
-/

namespace TripPlanner

open Json

/-! ## Legible records -/

theorem Json.Value.Legible.without {v : Value} (h : v.Legible) (removed : List String) :
    (v.without removed).Legible := by
  cases v with
  | record members =>
    rw [Value.legible_record] at h
    exact Value.legible_record.mpr fun m hMem => h m (List.mem_filter.mp hMem).1
  | _ => exact h

theorem Json.Value.Legible.changing {v : Value} (h : v.Legible) (name : String)
    {change : Value → Value} (hChange : ∀ w : Value, w.Legible → (change w).Legible) :
    (v.changing name change).Legible := by
  cases v with
  | record members =>
    rw [Value.legible_record] at h
    refine Value.legible_record.mpr fun m hMem => ?_
    obtain ⟨old, hOld, rfl⟩ := List.mem_map.mp hMem
    split
    case isTrue => exact hChange _ (h old hOld)
    case isFalse => exact h old hOld
  | _ => exact h

/-! ## Values of fields -/

theorem SelectionRule.shape_value (r : Reading) (rule : SelectionRule) :
    Named.shape SelectionRule r (.ofValue (Named.value rule)) = some rule := by
  cases rule <;> rfl

theorem DistanceReaction.shape_value (r : Reading) (reaction : DistanceReaction) :
    Named.shape DistanceReaction r (.ofValue (Named.value reaction)) = some reaction := by
  cases reaction <;> rfl

/-! ## Settings -/

namespace Settings

/-- Settings with the usual values in place of some members. -/
def without (removed : List String) (s : Settings) : Settings where
  timeMode := if "time_mode" ∈ removed then usual.timeMode else s.timeMode
  accessProfile := if "access_profile" ∈ removed then usual.accessProfile else s.accessProfile
  egressProfile := if "egress_profile" ∈ removed then usual.egressProfile else s.egressProfile
  accessWeight := if "beta_access_time" ∈ removed then usual.accessWeight else s.accessWeight
  egressWeight := if "beta_egress_time" ∈ removed then usual.egressWeight else s.egressWeight
  rangeQuery := if "range_query" ∈ removed then usual.rangeQuery else s.rangeQuery
  rangeSpan := if "range_query_duration" ∈ removed then usual.rangeSpan else s.rangeSpan
  streetLimit := if "limit_street_time" ∈ removed then usual.streetLimit else s.streetLimit
  ignoreTransfers :=
    if "ignore_transfers" ∈ removed then usual.ignoreTransfers else s.ignoreTransfers

theorem shape_without {r inner : Reading} (hInner : r.inner? = some inner)
    (removed : List String) (s : Settings) :
    Settings.shape r (.ofValue (s.value.without removed)) = some (s.without removed) := by
  have hNodup : names.Nodup := by decide
  refine Option.bind_eq_some_iff.mpr ⟨_, Fields.read?_without hInner (by rfl) hNodup removed, ?_⟩
  -- The members in the order in which they are asked for: most are read by evaluation, and one of
  -- a type with a reader of its own by what is known of that reader.
  refine Fields.bind_given_without rfl (TimeMode.shape_value inner s.timeMode) ?_
  refine Fields.bind_given_without rfl rfl ?_
  refine Fields.bind_given_without rfl rfl ?_
  refine Fields.bind_given_without rfl rfl ?_
  refine Fields.bind_given_without rfl rfl ?_
  refine Fields.bind_given_without rfl rfl ?_
  refine Fields.bind_given_without rfl (TimeSpan.shape_value inner s.rangeSpan) ?_
  refine Fields.bind_given_without rfl (TimeSpan.shape_value inner s.streetLimit) ?_
  refine Fields.bind_given_without rfl rfl ?_
  rfl

end Settings

/-! ## Configurations -/

namespace Configuration

/-- An interval to wait for is read from its own text, and none from null. -/
theorem timeoutShape_value (r : Reading) (timeout : Option Interval) :
    timeoutShape r (.ofValue (.optional (fun i => .text i.text) timeout)) = some timeout := by
  cases timeout with
  | none => rfl
  | some i =>
    have hRead := i.ofText?_text
    have hNonempty : i.text.toList.isEmpty = false := by
      cases hText : i.text.toList with
      | nil =>
        rw [hText] at hRead
        cases hRead
      | cons c rest => rfl
    have hStep : timeoutShape r (.ofValue (.text i.text)) =
        if (Text.trim i.text.toList).isEmpty then some none
        else (Interval.ofText? (Text.trim i.text.toList)).map some := rfl
    rw [Value.optional, hStep, i.trim_text, hNonempty, hRead]
    rfl

/-- A configuration with the usual values in place of some members, and of some of its settings. -/
def without (outer inner : List String) (c : Configuration) : Configuration :=
  let usual : Configuration := {}
  { baseText := if "base_url" ∈ outer then usual.baseText else c.baseText
    pageText := if "page_url" ∈ outer then usual.pageText else c.pageText
    routeEndpoint := if "route_endpoint" ∈ outer then usual.routeEndpoint else c.routeEndpoint
    infoEndpoint := if "info_endpoint" ∈ outer then usual.infoEndpoint else c.infoEndpoint
    locale := if "locale" ∈ outer then usual.locale else c.locale
    profile := if "profile" ∈ outer then usual.profile else c.profile
    selectionRule := if "selection_policy" ∈ outer then usual.selectionRule else c.selectionRule
    reaction := if "auxiliary_trigger" ∈ outer then usual.reaction else c.reaction
    keepsPaths :=
      if "retain_paths_while_fetching" ∈ outer then usual.keepsPaths else c.keepsPaths
    timeout := if "request_timeout" ∈ outer then usual.timeout else c.timeout
    settings := if "defaults" ∈ outer then usual.settings else c.settings.without inner }

theorem without_nil (c : Configuration) : c.without [] [] = c := rfl

/-- A configuration in JSON without some members, and without some of its settings. -/
def valueWithout (outer inner : List String) (c : Configuration) : Value :=
  (c.value.changing "defaults" (Value.without inner)).without outer

theorem shape_valueWithout (outer inner : List String) (c : Configuration) :
    Configuration.shape .document (.ofValue (c.valueWithout outer inner)) =
      some (c.without outer inner) := by
  have hNodup : names.Nodup := by decide
  have hInside := Reading.within_inner? 1 (by decide)
  refine Option.bind_eq_some_iff.mpr
    ⟨_, Fields.read?_without (Reading.within_inner? 0 (by decide)) (by rfl) hNodup outer, ?_⟩
  refine Fields.bind_given_without rfl rfl ?_
  refine Fields.bind_given_without rfl rfl ?_
  refine Fields.bind_given_without rfl rfl ?_
  refine Fields.bind_given_without rfl rfl ?_
  refine Fields.bind_given_without rfl rfl ?_
  refine Fields.bind_given_without rfl rfl ?_
  refine Fields.bind_given_without rfl (SelectionRule.shape_value _ c.selectionRule) ?_
  refine Fields.bind_given_without rfl (DistanceReaction.shape_value _ c.reaction) ?_
  refine Fields.bind_given_without rfl rfl ?_
  refine Fields.bind_given_without rfl (timeoutShape_value _ c.timeout) ?_
  refine Fields.bind_given_without rfl (Settings.shape_without hInside inner c.settings) ?_
  rfl

/-! ## Texts -/

theorem valueWithout_nil (c : Configuration) : c.valueWithout [] [] = c.value := rfl

/-- The weights of a configuration that passes its check are finite, and it has no other numbers. -/
theorem legible_value {c : Configuration} (hCheck : c.check = .ok ())
    (hAccess : c.settings.accessWeight.isFinite = true →
      (Json.Number.real c.settings.accessWeight).Legible)
    (hEgress : c.settings.egressWeight.isFinite = true →
      (Json.Number.real c.settings.egressWeight).Legible) : c.value.Legible := by
  have hChecked := checked_of_check hCheck
  have hAccess := hAccess (Rule.weight_eq_ok hChecked.accessWeight).2
  have hEgress := hEgress (Rule.weight_eq_ok hChecked.egressWeight).2
  have hSettings : c.settings.value.Legible := by
    simp [Settings.value, Value.legible_record, Named.value, Value.real, TimeSpan.value, hAccess,
      hEgress]
  have hTimeout : (Value.optional (fun i : Interval => .text i.text) c.timeout).Legible := by
    cases c.timeout with
    | none => exact Value.legible_null
    | some i => exact Value.legible_text i.text
  simp [value, Value.legible_record, Named.value, hSettings, hTimeout]

/-- A configuration is read from its own text, with the usual values in place of the members that
are left out. -/
theorem ofJson?_of_hasText {c : Configuration} (hLegible : c.value.Legible)
    {outer inner : List String} {s : String} (hText : (c.valueWithout outer inner).HasText s) :
    ofJson? s = some (c.without outer inner) := by
  have hWithout : (c.valueWithout outer inner).Legible :=
    (hLegible.changing "defaults" fun _ h => h.without inner).without outer
  exact (read?_of_hasText Configuration.shape hWithout hText).trans
    (shape_valueWithout outer inner c)

/-- A file has one ending only. -/
theorem not_endsWith_toml {file : String} (h : file.endsWith ".json" = true) :
    file.endsWith ".toml" = false := by
  rw [String.endsWith_eq_endsWith_toSlice] at h ⊢
  rw [String.Slice.endsWith_string_iff] at h
  refine Bool.eq_false_iff.mpr fun hToml => ?_
  rw [String.Slice.endsWith_string_iff] at hToml
  exact absurd (List.suffix_of_suffix_length_le h hToml (by decide)) (by decide)

/-- A file with a text that is read as a configuration holds that configuration. -/
theorem ofFile_of_ofJson? {c : Configuration} {s file : String} (hRead : ofJson? s = some c)
    (hCheck : c.check = .ok ()) (hJson : file.endsWith ".json" = true) :
    ofFile file (some (Text.Utf8.encode s.toList)) = .ok c := by
  have hText : textOf file (some (Text.Utf8.encode s.toList)) = .ok s := by
    simp only [textOf, Text.Utf8.decode_encode, if_true, String.ofList_toList]
  have hContent : ofContent file s = .ok c := by
    simp only [ofContent, not_endsWith_toml hJson, hJson, hRead, Bool.false_eq_true, if_false,
      if_true]
  exact Checks.bind_eq_ok.mpr ⟨s, hText, Checks.bind_eq_ok.mpr ⟨c, hContent,
    Checks.bind_eq_ok.mpr ⟨(), hCheck, rfl⟩⟩⟩

/-- **Configurations are read as they were written.** A configuration that passes its check, with
any interval to wait for or none, is read from its text as it is, be it compact or indented, and a
file with that text passes the check again. Where members are left out of the text, at the top level
or inside the settings, exactly these have the usual values in what is read. -/
theorem reloading {c : Configuration} (hCheck : c.check = .ok ())
    (hAccess : c.settings.accessWeight.isFinite = true →
      (Json.Number.real c.settings.accessWeight).Legible)
    (hEgress : c.settings.egressWeight.isFinite = true →
      (Json.Number.real c.settings.egressWeight).Legible) :
    (∀ s, c.value.HasText s → ofJson? s = some c ∧
      ∀ file : String, file.endsWith ".json" = true →
        ofFile file (some (Text.Utf8.encode s.toList)) = .ok c) ∧
    ∀ outer inner s, (c.valueWithout outer inner).HasText s →
      ofJson? s = some (c.without outer inner) := by
  have hLegible := legible_value hCheck hAccess hEgress
  refine ⟨fun s hText => ?_, fun _ _ _ => ofJson?_of_hasText hLegible⟩
  -- The whole text is the one that nothing has been left out of.
  rw [← c.valueWithout_nil] at hText
  have hRead := ofJson?_of_hasText hLegible hText
  rw [c.without_nil] at hRead
  exact ⟨hRead, fun _ => ofFile_of_ofJson? hRead hCheck⟩

/-- A configuration that is not the usual one and waits for an hour and a half and a millisecond. -/
def usualOwn : Configuration where
  locale := "de"
  selectionRule := .feasibleOnly
  timeout := some ⟨5400001000000, by decide⟩
  settings := { Settings.usual with accessProfile := "bike", rangeQuery := true }

theorem reloading_usual :
    usualOwn.check = .ok () ∧ ofJson? usualOwn.value.compact = some usualOwn ∧
      ofFile "planner.json" (some (Text.Utf8.encode usualOwn.value.pretty.toList)) =
        .ok usualOwn ∧
      ofJson? (usualOwn.valueWithout ["request_timeout"] ["access_profile"]).compact =
        some { usualOwn with
          timeout := none
          settings := { Settings.usual with rangeQuery := true } } := by
  have hPassed : usualOwn.check.toOption = some () := by decide +kernel
  have hCheck := Checks.toOption_eq_some.mp hPassed
  have hOne := Value.legible_number.mp Edit.legible_one
  have hAccess : usualOwn.settings.accessWeight = .ofInt 1 := by
    simp only [usualOwn, Settings.usual]
  have hEgress : usualOwn.settings.egressWeight = .ofInt 1 := by
    simp only [usualOwn, Settings.usual]
  obtain ⟨hWhole, hPart⟩ := reloading hCheck (fun _ => hAccess ▸ hOne) fun _ => hEgress ▸ hOne
  have hRest : usualOwn.without ["request_timeout"] ["access_profile"] =
      { usualOwn with
        timeout := none
        settings := { Settings.usual with rangeQuery := true } } := by decide +kernel
  rw [← hRest]
  have hJson : "planner.json".endsWith ".json" = true := by decide +kernel
  exact ⟨hCheck, (hWhole _ (.inl rfl)).1, (hWhole _ (.inr rfl)).2 "planner.json" hJson,
    hPart ["request_timeout"] ["access_profile"] _ (.inl rfl)⟩

end Configuration

end TripPlanner
