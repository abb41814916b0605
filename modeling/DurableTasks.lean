import DurableTasks.Safety.ClosedRuns
import DurableTasks.Safety.Handshake
import DurableTasks.Safety.Forks
import DurableTasks.Safety.Succession
import DurableTasks.Concurrency.LostClose
import DurableTasks.Concurrency.LostEvent
import DurableTasks.Concurrency.LiveRecovery
import DurableTasks.Dispatch.Holders
import DurableTasks.Dispatch.Tenants
import DurableTasks.Dispatch.Routing
import DurableTasks.Safety.Responses
import DurableTasks.Client.ExecuteWorkflow
import DurableTasks.Safety.Overwrites
import DurableTasks.Standalone.Finished
import DurableTasks.Retention.Registration
import DurableTasks.Schedules.Interleaved
import DurableTasks.Schedules.Fires
import DurableTasks.Deployments.Versions
import DurableTasks.Failures.Streaks
import DurableTasks.Replication.Quasar
import DurableTasks.Replication.Migration
import DurableTasks.Client.ScheduleCalls
import DurableTasks.Events.Stream
import DurableTasks.Keyspace.Runs
import DurableTasks.Sdk.Backoff
import DurableTasks.Sdk.Replay
import DurableTasks.Sdk.TaskErrors
import DurableTasks.Visibility.Numbers
import DurableTasks.Client.Queries
import DurableTasks.Wire.Stream
import DurableTasks.Shards.Scans
