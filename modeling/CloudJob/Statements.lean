import CloudJob.Models

/-!
# `Statements.lean` — the write statements of the repositories

Every `UPDATE` of `app/repositories/jobs.py` and `app/repositories/outbox.py` as what it is: a
`WHERE` on the row beyond its id, and the `VALUES` it assigns. `JobUpdate` carries the proof that
the values leave the identity columns alone, so no statement that did could be written down here.

Four of the nine job updates are the same statement up to what they assign: they close a running
execution, and only the worker that still holds the row's execution token may. That shared `WHERE`
is `whileRunningAs`, and it is the whole of the token fencing. -/

set_option autoImplicit false

namespace CloudJob

/-- `UPDATE jobs SET set WHERE id = … AND guard`. -/
structure JobUpdate where
  guard : Job → Bool
  set : Job → Job
  keeps : ∀ j, (set j).identity = j.identity

/-- `UPDATE outbox_events SET set WHERE id = … AND guard`. -/
structure EventUpdate where
  guard : OutboxEvent → Bool
  set : OutboxEvent → OutboxEvent
  keeps : ∀ ev, (set ev).id = ev.id ∧ (set ev).aggregateId = ev.aggregateId ∧
    (set ev).eventType = ev.eventType ∧ (set ev).payload = ev.payload

/-- What every statement that ends or queues an execution assigns: the new status, and no worker. -/
def Job.release (j : Job) (status : JobStatus) (now : Datetime) : Job :=
  { j with
    status := status
    workerId := none
    executionToken := none
    leaseExpiresAt := none
    updatedAt := now }

/-! ## `SqlAlchemyJobRepository` -/

def markQueued (now : Datetime) : JobUpdate where
  guard j := j.status == .pending
  set j := { j with status := .queued, updatedAt := now }
  keeps _ := rfl

def markRunning (workerId : String) (executionToken : Uuid) (now leaseExpiresAt : Datetime) :
    JobUpdate where
  guard j := j.status == .queued
  set j := { j with
    status := .running
    workerId := some workerId
    executionToken := some executionToken
    leaseExpiresAt := some leaseExpiresAt
    startedAt := some (j.startedAt.getD now)
    finishedAt := none
    lastError := none
    attemptCount := j.attemptCount + 1
    updatedAt := now }
  keeps _ := rfl

/-- The `WHERE` shared by the statements that close an execution: the row is running, as `token`. -/
def whileRunningAs (token : Uuid) (set : Job → Job) (keeps : ∀ j, (set j).identity = j.identity) :
    JobUpdate where
  guard j := j.status == .running && j.executionToken == some token
  set := set
  keeps := keeps

def markCompleted (executionToken : Uuid) (now : Datetime) : JobUpdate :=
  whileRunningAs executionToken
    (fun j => { j.release .completed now with finishedAt := some now, lastError := none })
    fun _ => rfl

def markFailed (executionToken : Uuid) (now : Datetime) (error : String) : JobUpdate :=
  whileRunningAs executionToken
    (fun j => { j.release .failed now with finishedAt := some now, lastError := some error })
    fun _ => rfl

def requeueRunning (executionToken : Uuid) (now : Datetime) (error : String) : JobUpdate :=
  whileRunningAs executionToken
    (fun j => { j.release .queued now with finishedAt := none, lastError := some error })
    fun _ => rfl

def markCancelled (executionToken : Uuid) (now : Datetime) : JobUpdate :=
  whileRunningAs executionToken
    (fun j => { j.release .cancelled now with finishedAt := some now })
    fun _ => rfl

def markFailedWithoutExecution (currentStatus : JobStatus) (now : Datetime) (error : String) :
    JobUpdate where
  guard j := j.status == currentStatus
  set j := { j.release .failed now with finishedAt := some now, lastError := some error }
  keeps _ := rfl

def cancelPendingOrQueued (now : Datetime) : JobUpdate where
  guard j := j.status.isDispatchable
  set j := { j.release .cancelled now with finishedAt := some now }
  keeps _ := rfl

def requestRunningCancellation (now : Datetime) : JobUpdate where
  guard j := j.status == .running && j.cancelRequestedAt.isNone
  set j := { j with cancelRequestedAt := some now, updatedAt := now }
  keeps _ := rfl

/-- The job updates, by name and arguments: what a transaction stages and the history records. -/
inductive JobStmt where
  | markQueued (now : Datetime)
  | markRunning (workerId : String) (executionToken : Uuid) (now leaseExpiresAt : Datetime)
  | markCompleted (executionToken : Uuid) (now : Datetime)
  | markFailed (executionToken : Uuid) (now : Datetime) (error : String)
  | requeueRunning (executionToken : Uuid) (now : Datetime) (error : String)
  | markCancelled (executionToken : Uuid) (now : Datetime)
  | markFailedWithoutExecution (currentStatus : JobStatus) (now : Datetime) (error : String)
  | cancelPendingOrQueued (now : Datetime)
  | requestRunningCancellation (now : Datetime)
deriving DecidableEq, Repr

def JobStmt.update : JobStmt → JobUpdate
  | .markQueued now => CloudJob.markQueued now
  | .markRunning workerId token now lease => CloudJob.markRunning workerId token now lease
  | .markCompleted token now => CloudJob.markCompleted token now
  | .markFailed token now error => CloudJob.markFailed token now error
  | .requeueRunning token now error => CloudJob.requeueRunning token now error
  | .markCancelled token now => CloudJob.markCancelled token now
  | .markFailedWithoutExecution status now error =>
      CloudJob.markFailedWithoutExecution status now error
  | .cancelPendingOrQueued now => CloudJob.cancelPendingOrQueued now
  | .requestRunningCancellation now => CloudJob.requestRunningCancellation now

/-- The execution token a statement closes: the four finalizing updates, no other. -/
def JobStmt.closes : JobStmt → Option Uuid
  | .markCompleted token _ | .markFailed token _ _ | .requeueRunning token _ _
  | .markCancelled token _ => some token
  | _ => none

/-- The execution token a statement issues. -/
def JobStmt.issues : JobStmt → Option Uuid
  | .markRunning _ token _ _ => some token
  | _ => none

/-- The clock reading a statement is made with. -/
def JobStmt.now : JobStmt → Datetime
  | .markQueued now | .markRunning _ _ now _ | .markCompleted _ now | .markFailed _ now _
  | .requeueRunning _ now _ | .markCancelled _ now | .markFailedWithoutExecution _ now _
  | .cancelPendingOrQueued now | .requestRunningCancellation now => now

/-- The row `create_pending_job` inserts; `id`, `created_at` and `updated_at` are column
defaults. -/
def newPendingJob (id ownerId : Uuid) (type : JobType) (payload : Json)
    (idempotencyKey requestHash : String)
    (maxRetries : Nat) (createdAt updatedAt : Datetime) : Job where
  id := id
  ownerId := ownerId
  type := type
  payload := payload
  status := .pending
  idempotencyKey := idempotencyKey
  requestHash := requestHash
  attemptCount := 0
  maxRetries := maxRetries
  cancelRequestedAt := none
  workerId := none
  executionToken := none
  leaseExpiresAt := none
  startedAt := none
  finishedAt := none
  lastError := none
  createdAt := createdAt
  updatedAt := updatedAt

/-! ## `SqlAlchemyOutboxRepository` -/

def markPublished (now : Datetime) : EventUpdate where
  guard _ := true
  set ev := { ev with publishedAt := some now, lastError := none, updatedAt := now }
  keeps _ := ⟨rfl, rfl, rfl, rfl⟩

def recordPublishFailure (error : String) (nextAvailableAt now : Datetime) : EventUpdate where
  guard ev := ev.publishedAt.isNone
  set ev := { ev with
    publishAttempts := ev.publishAttempts + 1
    lastError := some error
    availableAt := nextAvailableAt
    updatedAt := now }
  keeps _ := ⟨rfl, rfl, rfl, rfl⟩

inductive EventStmt where
  | markPublished (now : Datetime)
  | recordPublishFailure (error : String) (nextAvailableAt now : Datetime)
deriving DecidableEq, Repr

def EventStmt.update : EventStmt → EventUpdate
  | .markPublished now => CloudJob.markPublished now
  | .recordPublishFailure error next now => CloudJob.recordPublishFailure error next now

/-- The row `create_dispatch_event` inserts. -/
def newDispatchEvent (eventId jobId : Uuid) (createdAt availableAt : Datetime) : OutboxEvent where
  id := eventId
  aggregateId := jobId
  eventType := .dispatch
  payload := .message ⟨eventId, jobId, createdAt⟩
  availableAt := availableAt
  publishAttempts := 0
  publishedAt := none
  lastError := none
  createdAt := createdAt
  updatedAt := createdAt

/-! ## `SqlAlchemyJobLogRepository` -/

/-- `create_system_log`; `create_job_created_log` is the same row with its own text. -/
def systemLog (jobId : Uuid) (level message : String) (createdAt : Datetime) : JobLog where
  jobId := jobId
  attemptNumber := none
  level := level
  message := message
  createdAt := createdAt

end CloudJob
