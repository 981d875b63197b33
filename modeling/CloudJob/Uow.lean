import CloudJob.Runtime

/-!
# `Uow.lean` — the unit of work and its repositories

`app/db/uow.py` and the repository methods, as code that makes the calls of `Runtime.lean`. A method
here is one statement of the source; the mapping of a row to its DTO happens where the source does
it. The four namespaces are the four attributes of a unit of work. -/

set_option autoImplicit false

namespace CloudJob

open Lib

/-- One call. -/
def call (o : Op) : Code o.Ret := Prog.perform (S := sig) o

/-- `async with self._uow_factory() as uow: body`. The exit runs on both ways out and is told
which. -/
def withUow {α : Type} (body : Code α) : Code α :=
  (call .aenter).bind fun _ => body.attempt.bind fun r => match r with
    | .ok a => (call (.aexit false)).bind fun _ => .ret a
    | .error e => (call (.aexit true)).bind fun _ => .raise e

def commit : Code Unit := call .commit

def rollback : Code Unit := call .rollback

/-- `utc_now()`, and `self._clock.now()`. -/
def utcNow : Code Datetime := call .now

def uuid4 : Code Uuid := call .uuid4

/-! ## `uow.users` -/

namespace Users

def lockById (userId : Uuid) : Code Bool := call (.lockUser userId)

end Users

/-! ## `uow.jobs` -/

namespace Jobs

/-- `create_pending_job`: the insert, with its unique violation given its own name. -/
def createPendingJob (ownerId : Uuid) (jobType : JobType) (payload : Json)
    (idempotencyKey requestHash : String) (maxRetries : Nat) : Code StoredJobDTO := do
  let id ← uuid4
  let createdAt ← utcNow
  let updatedAt ← utcNow
  let job := newPendingJob id ownerId jobType payload idempotencyKey requestHash maxRetries
    createdAt updatedAt
  let _ ← Prog.tryCatch (call (.write (.insertJob job))) fun e => match e with
    | .integrity orig =>
        if isDuplicateJobIdempotencyKeyError orig then .raise .duplicateJobIdempotencyKey
        else .raise e
    | _ => .raise e
  return toStoredJobDto job

def getById (jobId : Uuid) : Code (Option StoredJobDTO) := do
  let job ← call (.selectJob jobId none)
  return job.map toStoredJobDto

def getByIdForOwner (jobId ownerId : Uuid) : Code (Option StoredJobDTO) := do
  let job ← call (.selectJob jobId (some ownerId))
  return job.map toStoredJobDto

def getByIdForUpdate (jobId : Uuid) : Code (Option StoredJobDTO) := do
  let job ← call (.selectJobForUpdate jobId none)
  return job.map toStoredJobDto

def getByIdForOwnerForUpdate (jobId ownerId : Uuid) : Code (Option StoredJobDTO) := do
  let job ← call (.selectJobForUpdate jobId (some ownerId))
  return job.map toStoredJobDto

def getExecutionCandidateForUpdate (jobId : Uuid) : Code (Option JobExecutionDTO) := do
  let job ← call (.selectJobForUpdate jobId none)
  return job.map toJobExecutionDto

def getOwnerId (jobId : Uuid) : Code (Option Uuid) := do
  let job ← call (.selectJob jobId none)
  return job.map Job.ownerId

def getByIdempotencyKey (ownerId : Uuid) (key : String) : Code (Option StoredJobDTO) := do
  let job ← call (.selectJobByKey ownerId key)
  return job.map toStoredJobDto

def countRunningForOwner (ownerId : Uuid) : Code Nat := call (.countRunning ownerId)

def claimExpiredRunningJobsForUpdate (now : Datetime) (limit : Nat) :
    Code (List JobExecutionDTO) := do
  let jobs ← call (.lockExpiredJobs now limit)
  return jobs.map toJobExecutionDto

/-- An `UPDATE jobs` statement; the answer is `rowcount == 1`. -/
def update (jobId : Uuid) (st : JobStmt) : Code Bool := call (.write (.updateJob jobId st))

def markQueued (jobId : Uuid) (now : Datetime) : Code Bool := update jobId (.markQueued now)

def markRunning (jobId : Uuid) (workerId : String) (executionToken : Uuid)
    (now leaseExpiresAt : Datetime) : Code Bool :=
  update jobId (.markRunning workerId executionToken now leaseExpiresAt)

def markCompleted (jobId executionToken : Uuid) (now : Datetime) : Code Bool :=
  update jobId (.markCompleted executionToken now)

def markFailed (jobId executionToken : Uuid) (now : Datetime) (error : String) : Code Bool :=
  update jobId (.markFailed executionToken now error)

def requeueRunning (jobId executionToken : Uuid) (now : Datetime) (error : String) : Code Bool :=
  update jobId (.requeueRunning executionToken now error)

def markCancelled (jobId executionToken : Uuid) (now : Datetime) : Code Bool :=
  update jobId (.markCancelled executionToken now)

def markFailedWithoutExecution (jobId : Uuid) (currentStatus : JobStatus) (now : Datetime)
    (error : String) : Code Bool :=
  update jobId (.markFailedWithoutExecution currentStatus now error)

def cancelPendingOrQueued (jobId : Uuid) (now : Datetime) : Code Bool :=
  update jobId (.cancelPendingOrQueued now)

def requestRunningCancellation (jobId : Uuid) (now : Datetime) : Code Bool :=
  update jobId (.requestRunningCancellation now)

end Jobs

/-! ## `uow.job_logs` -/

namespace JobLogs

/-- `create_system_log`; the row's `created_at` is the column default. The source adds the row to
the session, which draws the default when it is flushed, at the next statement or commit; here the
clock is read when the row is added. -/
def createSystemLog (jobId : Uuid) (level message : String) : Code Unit := do
  let createdAt ← utcNow
  let _ ← call (.write (.insertLog (systemLog jobId level message createdAt)))
  return ()

def createJobCreatedLog (jobId : Uuid) : Code Unit := createSystemLog jobId "info" "Job created"

end JobLogs

/-! ## `uow.outbox` -/

namespace Outbox

def createDispatchEvent (jobId : Uuid) (availableAt : Datetime) : Code OutboxEvent := do
  let createdAt ← utcNow
  let eventId ← uuid4
  let event := newDispatchEvent eventId jobId createdAt availableAt
  let _ ← call (.write (.insertEvent event))
  return event

def createDispatchEventIfAbsent (jobId : Uuid) (availableAt : Datetime) :
    Code (Option OutboxEvent) := do
  let existingEventId ← call (.selectPendingDispatch jobId)
  match existingEventId with
  | some _ => return none
  | none =>
      let event ← createDispatchEvent jobId availableAt
      return some event

def claimDueBatch (now : Datetime) (limit : Nat) : Code (List OutboxEvent) :=
  call (.lockDueEvents now limit)

def getByIdForUpdateUnpublished (eventId : Uuid) : Code (Option OutboxEvent) :=
  call (.lockUnpublishedEvent eventId)

def markPublished (eventId : Uuid) (now : Datetime) : Code Unit := do
  let _ ← call (.write (.updateEvent eventId (.markPublished now)))
  return ()

/-- `record_publish_failure`; `updated_at` is a clock reading of its own. -/
def recordPublishFailure (eventId : Uuid) (error : String) (nextAvailableAt : Datetime) :
    Code Unit := do
  let now ← utcNow
  let _ ← call (.write (.updateEvent eventId (.recordPublishFailure error nextAvailableAt now)))
  return ()

end Outbox

/-! ## Post-commit notification

`app/workers/post_commit.py`, as both the API and the workers wire it: a composite of the cache
invalidation and the Redis publication, each of whose exceptions the composite swallows. -/

/-- `RedisJobListCache.invalidate_owner`, which logs a failure and returns. -/
def invalidateOwner (ownerId : Uuid) : Code Unit :=
  Prog.tryCatch (call (.redisInvalidate ownerId)) fun _ => .ret ()

/-- `RedisPublishingWorkerPostCommitNotifier.notify_job_state_changed`. -/
def publishStatus (n : JobPostCommitNotification) : Code Unit :=
  call (.redisPublish ⟨n.jobId, n.status, n.attemptCount, n.committedAt, n.cancelRequestedAt⟩)

/-- `CompositeWorkerPostCommitNotifier.notify_job_state_changed` over those two. -/
def notifyJobStateChanged (n : JobPostCommitNotification) : Code Unit := do
  Prog.tryCatch (invalidateOwner n.ownerId) fun _ => .ret ()
  Prog.tryCatch (publishStatus n) fun _ => .ret ()

end CloudJob
