import CloudJob.Domain

/-!
# `Models.lean` — rows, and what is read off them

The three tables the job machinery writes (`app/models/`), the message that travels through the
broker (`app/schemas/outbox.py`) and the DTOs built from a row (`app/application/dto.py`).

A `users` row is only ever locked and tested for presence here, so a user is its id. `job_logs.id`
is the position of the row in the table, which is the order the identity column gives it. -/

set_option autoImplicit false

namespace CloudJob

structure Job where
  id : Uuid
  ownerId : Uuid
  type : JobType
  payload : Json
  status : JobStatus
  idempotencyKey : String
  requestHash : String
  attemptCount : Nat
  maxRetries : Nat
  cancelRequestedAt : Option Datetime
  workerId : Option String
  executionToken : Option Uuid
  leaseExpiresAt : Option Datetime
  startedAt : Option Datetime
  finishedAt : Option Datetime
  lastError : Option String
  createdAt : Datetime
  updatedAt : Datetime

/-- The columns no statement of the program ever writes after the insert. -/
structure JobIdentity where
  id : Uuid
  ownerId : Uuid
  type : JobType
  payload : Json
  idempotencyKey : String
  requestHash : String
  maxRetries : Nat
  createdAt : Datetime

def Job.identity (j : Job) : JobIdentity where
  id := j.id
  ownerId := j.ownerId
  type := j.type
  payload := j.payload
  idempotencyKey := j.idempotencyKey
  requestHash := j.requestHash
  maxRetries := j.maxRetries
  createdAt := j.createdAt

/-- `DispatchOutboxMessage`; `kind` has the one value `"dispatch"`. -/
structure DispatchOutboxMessage where
  eventId : Uuid
  jobId : Uuid
  createdAt : Datetime
deriving DecidableEq, Repr

/-- An outbox payload, as `DispatchOutboxMessage.model_validate` sees it. -/
inductive EventPayload where
  | message (m : DispatchOutboxMessage)
  | malformed (text : String)
deriving DecidableEq, Repr

/-- `DispatchOutboxMessage.model_validate(payload)`. -/
def modelValidate : EventPayload → Except Exc DispatchOutboxMessage
  | .message m => .ok m
  | .malformed text => .error (.validation text)

structure OutboxEvent where
  id : Uuid
  aggregateId : Uuid
  eventType : JobEventType
  payload : EventPayload
  availableAt : Datetime
  publishAttempts : Nat
  publishedAt : Option Datetime
  lastError : Option String
  createdAt : Datetime
  updatedAt : Datetime

/-- `aggregate_id = job_id AND event_type = 'job.dispatch' AND published_at IS NULL`. -/
def OutboxEvent.isPendingDispatch (jobId : Uuid) (ev : OutboxEvent) : Bool :=
  ev.aggregateId == jobId && ev.eventType == .dispatch && ev.publishedAt.isNone

structure JobLog where
  jobId : Uuid
  attemptNumber : Option Nat
  level : String
  message : String
  createdAt : Datetime
deriving DecidableEq, Repr

/-! ## DTOs -/

structure CurrentUserDTO where
  id : Uuid
  role : UserRole
deriving DecidableEq, Repr

structure StoredJobDTO where
  id : Uuid
  ownerId : Uuid
  type : JobType
  payload : Json
  status : JobStatus
  idempotencyKey : String
  requestHash : String
  createdAt : Datetime
  updatedAt : Datetime
  cancelRequestedAt : Option Datetime
  attemptCount : Nat

structure JobExecutionDTO where
  id : Uuid
  ownerId : Uuid
  type : JobType
  payload : Json
  status : JobStatus
  attemptCount : Nat
  maxRetries : Nat
  workerId : Option String
  executionToken : Option Uuid
  leaseExpiresAt : Option Datetime
  startedAt : Option Datetime
  finishedAt : Option Datetime
  cancelRequestedAt : Option Datetime
  lastError : Option String

structure JobPublicDTO where
  id : Uuid
  ownerId : Uuid
  type : JobType
  payload : Json
  status : JobStatus
  idempotencyKey : String
  createdAt : Datetime
  updatedAt : Datetime
  cancelRequestedAt : Option Datetime
  attemptCount : Nat

structure JobCreateResultDTO where
  job : JobPublicDTO
  created : Bool

structure CreateJobRateLimitReservationDTO where
  key : String
  limit : Nat
  used : Nat
  remaining : Nat
  retryAfterSeconds : Nat
  resetEpoch : Int
deriving DecidableEq, Repr

/-- `JobPostCommitNotification`. -/
structure JobPostCommitNotification where
  jobId : Uuid
  ownerId : Uuid
  status : JobStatus
  attemptCount : Nat
  committedAt : Datetime
  cancelRequestedAt : Option Datetime
deriving DecidableEq, Repr

/-- `JobStatusEvent`, less its own random `event_id`. -/
structure JobStatusEvent where
  jobId : Uuid
  status : JobStatus
  attemptCount : Nat
  occurredAt : Datetime
  cancelRequestedAt : Option Datetime
deriving DecidableEq, Repr

def toStoredJobDto (job : Job) : StoredJobDTO where
  id := job.id
  ownerId := job.ownerId
  type := job.type
  payload := job.payload
  status := job.status
  idempotencyKey := job.idempotencyKey
  requestHash := job.requestHash
  createdAt := job.createdAt
  updatedAt := job.updatedAt
  cancelRequestedAt := job.cancelRequestedAt
  attemptCount := job.attemptCount

def toJobExecutionDto (job : Job) : JobExecutionDTO where
  id := job.id
  ownerId := job.ownerId
  type := job.type
  payload := job.payload
  status := job.status
  attemptCount := job.attemptCount
  maxRetries := job.maxRetries
  workerId := job.workerId
  executionToken := job.executionToken
  leaseExpiresAt := job.leaseExpiresAt
  startedAt := job.startedAt
  finishedAt := job.finishedAt
  cancelRequestedAt := job.cancelRequestedAt
  lastError := job.lastError

def toJobPublicDto (job : StoredJobDTO) : JobPublicDTO where
  id := job.id
  ownerId := job.ownerId
  type := job.type
  payload := job.payload
  status := job.status
  idempotencyKey := job.idempotencyKey
  createdAt := job.createdAt
  updatedAt := job.updatedAt
  cancelRequestedAt := job.cancelRequestedAt
  attemptCount := job.attemptCount

/-- The settings the job machinery reads (`app/core/config.py`). -/
structure Settings where
  jobMaxRunningPerUser : Nat := 3
  jobMaxRetries : Nat := 3
  jobLeaseSeconds : Nat := 60
  outboxBatchSize : Nat := 50
  recoveryBatchSize : Nat := 50
deriving DecidableEq, Repr

/-- A job of owner 7, for examples. -/
def sampleJob (id : Uuid) : Job where
  id := id
  ownerId := 7
  type := .success
  payload := .obj []
  status := .pending
  idempotencyKey := toString id
  requestHash := ""
  attemptCount := 0
  maxRetries := 3
  cancelRequestedAt := none
  workerId := none
  executionToken := none
  leaseExpiresAt := none
  startedAt := none
  finishedAt := none
  lastError := none
  createdAt := seconds 1
  updatedAt := seconds 1

end CloudJob
