import KiwiCI.Auth.RoundTrip
import KiwiCI.Executor.Retry
import KiwiCI.Executor.RunComplete
import KiwiCI.Memory.Supersession
import KiwiCI.Pipeline.MapOrder
import KiwiCI.Policy.Layering
import KiwiCI.PortableProof.Discovery
import KiwiCI.Scheduler.Dependencies
import KiwiCI.Scheduler.Prefilter
import KiwiCI.Scheduler.Priority
import KiwiCI.Scheduler.RecoverExpired
import KiwiCI.Scheduler.Scan
import KiwiCI.Secrets.Hierarchy
import KiwiCI.Server.Confluence
import KiwiCI.Server.GeneratedEdges
import KiwiCI.Server.ScheduleOccurrences
import KiwiCI.Storage.CompletionReplay
import KiwiCI.Storage.Concurrency
import KiwiCI.Storage.ExecutionEvents
import KiwiCI.Storage.Quota
import KiwiCI.Storage.RetryBudget
import KiwiCI.Storage.RunAuthz
import KiwiCI.VerifyAPI.Authority
import KiwiCI.VerifyAPI.NoAuthority
import KiwiCI.Workspace
