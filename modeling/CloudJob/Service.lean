import CloudJob.Uow

/-!
# `Service.lean` — `JobService.create_job` and `JobService.cancel_job`

`app/application/services/jobs.py`. The hash function itself, `hashlib.sha256(…).hexdigest()`, is a
parameter.
-/

set_option autoImplicit false

namespace CloudJob

open Lib

namespace JobService

/-- `canonical_payload`. -/
def canonicalPayload (jobType : JobType) (payload : Json) : Json :=
  .obj [("type", .str jobType.value), ("payload", payload)]

/-- `_build_request_hash`. -/
def buildRequestHash (sha256 : String → String) (jobType : JobType) (payload : Json) : String :=
  sha256 (canonicalPayload jobType payload).dumps

/-- `JobService._notify_post_commit`. -/
def notifyPostCommit (job : JobPublicDTO) : Code Unit :=
  Prog.tryCatch
    (notifyJobStateChanged
      { jobId := job.id
        ownerId := job.ownerId
        status := job.status
        attemptCount := job.attemptCount
        committedAt := job.updatedAt
        cancelRequestedAt := job.cancelRequestedAt })
    fun _ => .ret ()

/-- `_validate_existing_job`. -/
def validateExistingJob (existingJob : StoredJobDTO) (requestHash : String) : Code JobPublicDTO :=
  if existingJob.requestHash ≠ requestHash then .raise .idempotencyConflict
  else .ret (toJobPublicDto existingJob)

/-- `_load_existing_job`. -/
def loadExistingJob (ownerId : Uuid) (idempotencyKey requestHash : String) : Code JobPublicDTO :=
  withUow do
    let existingJob ← Jobs.getByIdempotencyKey ownerId idempotencyKey
    match existingJob with
    | none => .raise (.runtimeError "Expected an existing job after idempotency conflict")
    | some existingJob => validateExistingJob existingJob requestHash

/-- `_load_existing_job_by_id`. -/
def loadExistingJobById (jobId : Uuid) : Code JobPublicDTO :=
  withUow do
    let job ← Jobs.getById jobId
    match job with
    | none => .raise (.resourceNotFound "Job not found")
    | some job => return toJobPublicDto job

/-- `_load_authorized_job_for_update`, with its lock. -/
def loadAuthorizedJobForUpdate (currentUser : CurrentUserDTO) (jobId : Uuid) :
    Code StoredJobDTO := do
  let job ← if currentUser.role = .admin then Jobs.getByIdForUpdate jobId
    else Jobs.getByIdForOwnerForUpdate jobId currentUser.id
  match job with
  | none => .raise (.resourceNotFound "Job not found")
  | some job => return job

/-- `if rate_limit_reservation is not None: await self._rate_limiter.release(…)`. -/
def releaseReservation : Option CreateJobRateLimitReservationDTO → Code Unit
  | none => .ret ()
  | some reservation => call (.releaseReservation reservation)

/-- The `try` body of `create_job`: the row, its log, its dispatch event, and the commit. -/
def insertJob (settings : Settings) (currentUser : CurrentUserDTO) (idempotencyKey : String)
    (jobType : JobType) (payload : Json) (requestHash : String) : Code StoredJobDTO := do
  let createdJob ← Jobs.createPendingJob currentUser.id jobType payload idempotencyKey requestHash
    settings.jobMaxRetries
  JobLogs.createJobCreatedLog createdJob.id
  let availableAt ← utcNow
  let _ ← Outbox.createDispatchEvent createdJob.id availableAt
  commit
  return createdJob

/-- `create_job`. The unit of work answers `none` where the source falls out of it, after a
duplicate key, to reload the job that was there first. -/
def createJob (sha256 : String → String) (settings : Settings) (currentUser : CurrentUserDTO)
    (idempotencyKey : String) (jobType : JobType) (payload : Json) : Code JobCreateResultDTO := do
  let requestHash := buildRequestHash sha256 jobType payload
  let result ← withUow do
    let existingJob ← Jobs.getByIdempotencyKey currentUser.id idempotencyKey
    match existingJob with
    | some existingJob =>
        let job ← validateExistingJob existingJob requestHash
        return some (JobCreateResultDTO.mk job false)
    | none =>
        let reservation ← call (.reserve currentUser.id)
        let outcome ← (insertJob settings currentUser idempotencyKey jobType payload
          requestHash).attempt
        match outcome with
        | .error .duplicateJobIdempotencyKey =>
            releaseReservation reservation
            rollback
            return none
        | .error e =>
            releaseReservation reservation
            .raise e
        | .ok createdJob =>
            invalidateOwner currentUser.id
            let createdJobPublic := toJobPublicDto createdJob
            notifyPostCommit createdJobPublic
            return some (JobCreateResultDTO.mk createdJobPublic true)
  match result with
  | some result => return result
  | none =>
      let job ← loadExistingJob currentUser.id idempotencyKey requestHash
      return ⟨job, false⟩

/-- What both cancelling branches do once their update matched a row: log, commit, announce, and
answer with the row as it now is. -/
def finishCancel (job : StoredJobDTO) (message : String) : Code JobPublicDTO := do
  JobLogs.createSystemLog job.id "info" message
  commit
  invalidateOwner job.ownerId
  let refreshed ← loadExistingJobById job.id
  notifyPostCommit refreshed
  return refreshed

/-- `cancel_job`. -/
def cancelJob (currentUser : CurrentUserDTO) (jobId : Uuid) : Code JobPublicDTO := do
  let now ← utcNow
  withUow do
    let job ← loadAuthorizedJobForUpdate currentUser jobId
    if job.status.isDispatchable then
      let cancelled ← Jobs.cancelPendingOrQueued job.id now
      if cancelled then finishCancel job "Job cancelled before execution"
      else return toJobPublicDto job
    else if job.status = .running then
      let requested ← Jobs.requestRunningCancellation job.id now
      if requested then finishCancel job "Job cancellation requested"
      else return toJobPublicDto job
    else if job.status = .completed ∨ job.status = .failed then
      .raise .jobNotCancellable
    else return toJobPublicDto job

end JobService

end CloudJob
