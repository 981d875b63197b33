import CloudJob.Worker

/-!
# `Publisher.lean` — `OutboxPublisher`

`app/workers/outbox_publisher.py`. `run_forever` is the process being started over and over on
`publish_due_batch_once`.
-/

set_option autoImplicit false

namespace CloudJob

open Lib

def MAX_OUTBOX_BACKOFF_SECONDS : Nat := 300

def MAX_OUTBOX_ERROR_LENGTH : Nat := 1000

namespace OutboxPublisher

/-- `_compute_retry_delay_seconds`. -/
def computeRetryDelaySeconds (nextAttemptNumber : Nat) : Nat :=
  min (2 ^ (nextAttemptNumber - 1)) MAX_OUTBOX_BACKOFF_SECONDS

/-- `_discard_non_dispatchable_event`. -/
def discardNonDispatchableEvent (event : OutboxEvent) (status : JobStatus) : Code Unit := do
  JobLogs.createSystemLog event.aggregateId "info"
    s!"Dispatch skipped because job is not dispatchable (status={status.value})"
  let now ← utcNow
  Outbox.markPublished event.id now

/-- `_record_failure_after_rollback`. -/
def recordFailureAfterRollback (event : OutboxEvent) (error : String) : Code Unit := do
  rollback
  let now ← utcNow
  let nextAvailableAt := now + seconds (computeRetryDelaySeconds (event.publishAttempts + 1))
  let errorMessage := truncateError MAX_OUTBOX_ERROR_LENGTH error
  withUow do
    Outbox.recordPublishFailure event.id errorMessage nextAvailableAt
    commit

/-- The `try` body of `_process_claimed_event_once`; `true` where the source returns from inside
it. -/
def stageAndPublish (lockedEvent : OutboxEvent) (job : StoredJobDTO) : Code Bool := do
  let message ← Prog.ofExcept (modelValidate lockedEvent.payload)
  if job.status = .pending then
    let now ← utcNow
    let queued ← Jobs.markQueued job.id now
    if queued then
      call (.publishDispatch message)
      return false
    else
      discardNonDispatchableEvent lockedEvent job.status
      commit
      return true
  else
    call (.publishDispatch message)
    return false

/-- `_process_claimed_event_once` for an event and a job that it holds. -/
def processLocked (lockedEvent : OutboxEvent) (job : StoredJobDTO) : Code Bool := do
  if job.status.isDispatchable then
    let outcome ← (stageAndPublish lockedEvent job).attempt
    match outcome with
    | .error e =>
        recordFailureAfterRollback lockedEvent e.str
        return true
    | .ok true => return true
    | .ok false =>
        let now ← utcNow
        Outbox.markPublished lockedEvent.id now
        commit
        return true
  else
    discardNonDispatchableEvent lockedEvent job.status
    commit
    return true

/-- `_process_claimed_event_once`. -/
def processClaimedEventOnce (eventId : Uuid) : Code Bool :=
  withUow do
    let some lockedEvent ← Outbox.getByIdForUpdateUnpublished eventId | return false
    let job ← Jobs.getByIdForUpdate lockedEvent.aggregateId
    match job with
    | none =>
        let now ← utcNow
        Outbox.markPublished lockedEvent.id now
        commit
        return true
    | some job => processLocked lockedEvent job

/-- The loop of `publish_due_batch_once`; the answer is `processed_count`. -/
def processAll : List Uuid → Code Nat
  | [] => .ret 0
  | eventId :: rest => do
      let processed ← processClaimedEventOnce eventId
      let count ← processAll rest
      return if processed then count + 1 else count

/-- `publish_due_batch_once`. The batch is locked only while it is listed. -/
def publishDueBatchOnce (settings : Settings) : Code Nat := do
  let now ← utcNow
  let claimedEventIds ← withUow do
    let claimedEvents ← Outbox.claimDueBatch now settings.outboxBatchSize
    return claimedEvents.map OutboxEvent.id
  processAll claimedEventIds

end OutboxPublisher

end CloudJob
