import TripPlanner.Main
import TripPlanner.Proofs.Binary64.Order
import TripPlanner.Proofs.Query.Edits
import TripPlanner.Proofs.Query.Equality
import TripPlanner.Proofs.Query.Writes
import TripPlanner.Proofs.Query.Document
import TripPlanner.Proofs.Configuration.Document
import TripPlanner.Proofs.Link.Base
import TripPlanner.Proofs.Link.RoundTrip
import TripPlanner.Proofs.Link.Reopening
import TripPlanner.Proofs.Link.Identity
import TripPlanner.Proofs.Link.Acceptance
import TripPlanner.Proofs.Link.Changes
import TripPlanner.Proofs.Link.Malformed
import TripPlanner.Proofs.Link.BareQueries
import TripPlanner.Proofs.Planner.Events
import TripPlanner.Proofs.Results.Paths
import TripPlanner.Proofs.Results.Attempts
import TripPlanner.Proofs.Planner.Agreement
import TripPlanner.Proofs.Planner.Start
import TripPlanner.Proofs.Planner.Selection
import TripPlanner.Proofs.Planner.Values
import TripPlanner.Proofs.Planner.Repetition
import TripPlanner.Proofs.Planner.Retention
import TripPlanner.Proofs.Planner.Sharing
import TripPlanner.Proofs.Planner.Distance
import TripPlanner.Proofs.Planner.Opacity
import TripPlanner.Proofs.Planner.Survival
import TripPlanner.Proofs.Session.Courses
import TripPlanner.Proofs.Session.Stranding
import TripPlanner.Proofs.Session.Settling
import TripPlanner.Proofs.Session.Gating
import TripPlanner.Proofs.Session.Provenance
import TripPlanner.Proofs.Session.Timing
import TripPlanner.Proofs.Session.Loop
import TripPlanner.Proofs.CommandLine.Arguments
import TripPlanner.Proofs.CommandLine.Rounds
import TripPlanner.Proofs.CommandLine.Plan
