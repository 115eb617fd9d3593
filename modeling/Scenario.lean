import Scenario.Json.Content
import Scenario.Proofs.ChangeLog
import Scenario.Proofs.CycleGuard
import Scenario.Proofs.Replay
import Scenario.Proofs.Restoring
import Scenario.Proofs.Bounds
import Scenario.Proofs.Once
import Scenario.Proofs.Strict
import Scenario.Proofs.Safe
import Scenario.Proofs.NoPanic
import Scenario.Proofs.Printing
import Scenario.Proofs.ScopedRuns
import Scenario.Proofs.Scheduling
import Scenario.Proofs.NotificationText
import Scenario.Proofs.SaveText
import Scenario.Proofs.Loading
import Scenario.Proofs.Endings
import Scenario.Proofs.Attributes
import Scenario.Proofs.Contained
import Scenario.Proofs.FailedPasses
import Scenario.Proofs.Abandoned
import Scenario.Proofs.Loops
import Scenario.Proofs.Building
import Scenario.Proofs.StrictContent
import Scenario.Proofs.Consulting
import Scenario.Proofs.Rejection
import Scenario.Proofs.Totals
import Scenario.Proofs.Updates
import Scenario.Proofs.Choosing
import Scenario.Proofs.Sampling
import Scenario.Proofs.Winners
import Scenario.Proofs.Registrations
import Scenario.Proofs.Conditions
import Scenario.Proofs.Stacks
import Scenario.Proofs.Lifetimes
import Scenario.Proofs.Tiling
