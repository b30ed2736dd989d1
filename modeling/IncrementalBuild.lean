import IncrementalBuild.Engine.Recording
import IncrementalBuild.Main
import IncrementalBuild.Proofs.Path.Join
import IncrementalBuild.Proofs.Arguments
import IncrementalBuild.Proofs.Path.Map
import IncrementalBuild.Proofs.FromScratch
import IncrementalBuild.Proofs.Reuse
import IncrementalBuild.Proofs.UnitSettings
import IncrementalBuild.Proofs.Engine.Command
import IncrementalBuild.Proofs.Registry
import IncrementalBuild.Proofs.Refusal
import IncrementalBuild.Proofs.EditSafety
import IncrementalBuild.Proofs.Baseline
import IncrementalBuild.Proofs.Canonical
import IncrementalBuild.Proofs.Forgetting
import IncrementalBuild.Proofs.Linearization
import IncrementalBuild.Proofs.Symbols
import IncrementalBuild.Proofs.Client
import IncrementalBuild.Proofs.Exchange
import IncrementalBuild.Proofs.Json.Message
import IncrementalBuild.Proofs.Route
import IncrementalBuild.Proofs.Contest
import IncrementalBuild.Proofs.GivingUp
import IncrementalBuild.Proofs.Neighbours
import IncrementalBuild.Proofs.Host.Handles
import IncrementalBuild.Proofs.Publishers
import IncrementalBuild.Proofs.Rivals
import IncrementalBuild.Proofs.Atomicity
import IncrementalBuild.Proofs.ExactDelta
import IncrementalBuild.Proofs.Repetition
import IncrementalBuild.Proofs.Arguments.Nesting
import IncrementalBuild.Proofs.Arguments.Meaning
import IncrementalBuild.Proofs.Engine.Reports
import IncrementalBuild.Proofs.Engine.Failures
import IncrementalBuild.Proofs.Owner
import IncrementalBuild.Proofs.Meeting
import IncrementalBuild.Proofs.Life
import IncrementalBuild.Proofs.Reordering
