import CloudJob.System
import CloudJob.Lib.Rely
import CloudJob.Lifecycle.Action
import CloudJob.Lifecycle.Effect
import CloudJob.Lifecycle.Rows
import CloudJob.Lifecycle.Coverage
import CloudJob.Lifecycle.Keys
import CloudJob.Frame
import CloudJob.Contract.Rely
import CloudJob.Contract.Effects
import CloudJob.Contract.Protocol
import CloudJob.Contract.Steps
import CloudJob.Contract.Held
import CloudJob.Contract.Staged
import CloudJob.Contract.Rules
import CloudJob.Contract.Writes
import CloudJob.Contract.Uow
import CloudJob.Contract.Cancel
import CloudJob.Contract.Create
import CloudJob.Contract.Publish
import CloudJob.Contract.Finalize
import CloudJob.Contract.Claim
import CloudJob.Contract.Recover
import CloudJob.Contract.Soundness
import CloudJob.Safety.Delivery
import CloudJob.Safety.Rows
import CloudJob.Safety.Creation
import CloudJob.Lib.Keyset
import CloudJob.Listing
import CloudJob.Safety.Pagination
import CloudJob.Safety.ListCache
import CloudJob.Safety.Freshness
import CloudJob.Streaming
import CloudJob.Safety.Streaming
import CloudJob.Safety.Cancellation
import CloudJob.Safety.Lease
import CloudJob.Lib.Discipline
import CloudJob.Lib.Observer
import CloudJob.Text
import CloudJob.Safety.CancelContract
import CloudJob.Safety.Fencing
import CloudJob.Safety.Retry
import CloudJob.Safety.Publishing
import CloudJob.Safety.LogLedger
import CloudJob.Heartbeat
import CloudJob.Safety.Heartbeat
import CloudJob.Callers
import CloudJob.Safety.Confirmation
import CloudJob.Safety.Backoff
import CloudJob.Lib.Expiring
import CloudJob.Lib.Text
import CloudJob.RateLimiter
import CloudJob.Limited
import CloudJob.Api
import CloudJob.Safety.RateLimit
import CloudJob.Safety.RateQuota
import CloudJob.Safety.VersionExpiry
import CloudJob.Safety.Tenancy
import CloudJob.Safety.PageCodec
import CloudJob.Safety.CursorDecoding
import CloudJob.Logging
import CloudJob.Safety.Redaction
import CloudJob.Safety.Timestamps
import CloudJob.Lib.Alike
import CloudJob.Safety.RedisOutage
import CloudJob.Safety.Atomicity
import CloudJob.Safety.Reservation
import CloudJob.Safety.Deadlock
import CloudJob.Safety.LockOrder
import CloudJob.Lib.Simulation
import CloudJob.Safety.Workflow
import CloudJob.Accounts
import CloudJob.Contract.Accounts
import CloudJob.Safety.Accounts
import CloudJob.Safety.LockOrder
