import TripPlanner.Configuration.Basic
import TripPlanner.Query.Document

/-!
# Configurations as documents

A configuration is a record all of whose members may be missing; the usual values then stand for
them. The settings that queries start with are a record of the same kind within it.
-/

namespace TripPlanner

open Json

namespace Settings

/-- The names of the members, in order. -/
def names : List String :=
  ["time_mode", "access_profile", "egress_profile", "beta_access_time", "beta_egress_time",
    "range_query", "range_query_duration", "limit_street_time", "ignore_transfers"]

/-- Settings as they are read. -/
def shape : Shape Settings := fun r t => do
  let fields ← Fields.read? names r t
  let timeMode ← fields.given "time_mode" (Named.shape TimeMode) usual.timeMode
  let accessProfile ← fields.given "access_profile" Shape.text usual.accessProfile
  let egressProfile ← fields.given "egress_profile" Shape.text usual.egressProfile
  let accessWeight ← fields.given "beta_access_time" Shape.number usual.accessWeight
  let egressWeight ← fields.given "beta_egress_time" Shape.number usual.egressWeight
  let rangeQuery ← fields.given "range_query" Shape.bool usual.rangeQuery
  let rangeSpan ← fields.given "range_query_duration" TimeSpan.shape usual.rangeSpan
  let streetLimit ← fields.given "limit_street_time" TimeSpan.shape usual.streetLimit
  let ignoreTransfers ← fields.given "ignore_transfers" Shape.bool usual.ignoreTransfers
  some
    { timeMode, accessProfile, egressProfile, accessWeight, egressWeight, rangeQuery, rangeSpan,
      streetLimit, ignoreTransfers }

/-- Settings in JSON. -/
def value (s : Settings) : Value :=
  .record
    [("time_mode", Named.value s.timeMode), ("access_profile", .text s.accessProfile),
      ("egress_profile", .text s.egressProfile), ("beta_access_time", .real s.accessWeight),
      ("beta_egress_time", .real s.egressWeight), ("range_query", .bool s.rangeQuery),
      ("range_query_duration", s.rangeSpan.value), ("limit_street_time", s.streetLimit.value),
      ("ignore_transfers", .bool s.ignoreTransfers)]

end Settings

namespace Configuration

/-- The interval to wait for an answer as it is read; a blank text stands for none. -/
def timeoutShape : Shape (Option Interval) :=
  Shape.text.optional.refine fun written =>
    match written with
    | none => some none
    | some s =>
      let body := Text.trim s.toList
      if body.isEmpty then some none else (Interval.ofText? body).map some

/-- The names of the members, in order. -/
def names : List String :=
  ["base_url", "page_url", "route_endpoint", "info_endpoint", "locale", "profile",
    "selection_policy", "auxiliary_trigger", "retain_paths_while_fetching", "request_timeout",
    "defaults"]

/-- A configuration as it is read. -/
def shape : Shape Configuration := fun r t => do
  let usual : Configuration := {}
  let fields ← Fields.read? names r t
  let baseText ← fields.given "base_url" Shape.text usual.baseText
  let pageText ← fields.given "page_url" Shape.text usual.pageText
  let routeEndpoint ← fields.given "route_endpoint" Shape.text usual.routeEndpoint
  let infoEndpoint ← fields.given "info_endpoint" Shape.text usual.infoEndpoint
  let locale ← fields.given "locale" Shape.text usual.locale
  let profile ← fields.given "profile" Shape.text usual.profile
  let selectionRule ←
    fields.given "selection_policy" (Named.shape SelectionRule) usual.selectionRule
  let reaction ← fields.given "auxiliary_trigger" (Named.shape DistanceReaction) usual.reaction
  let keepsPaths ← fields.given "retain_paths_while_fetching" Shape.bool usual.keepsPaths
  let timeout ← fields.given "request_timeout" timeoutShape usual.timeout
  let settings ← fields.given "defaults" Settings.shape usual.settings
  some
    { baseText, pageText, routeEndpoint, infoEndpoint, locale, profile, selectionRule, reaction,
      keepsPaths, timeout, settings }

/-- A configuration in JSON. -/
def value (c : Configuration) : Value :=
  .record
    [("base_url", .text c.baseText), ("page_url", .text c.pageText),
      ("route_endpoint", .text c.routeEndpoint), ("info_endpoint", .text c.infoEndpoint),
      ("locale", .text c.locale), ("profile", .text c.profile),
      ("selection_policy", Named.value c.selectionRule),
      ("auxiliary_trigger", Named.value c.reaction),
      ("retain_paths_while_fetching", .bool c.keepsPaths),
      ("request_timeout", .optional (fun i => .text i.text) c.timeout),
      ("defaults", c.settings.value)]

end Configuration

end TripPlanner
