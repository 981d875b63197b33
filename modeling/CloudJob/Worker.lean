import CloudJob.Uow

/-!
# `Worker.lean` — `JobWorker`

`app/workers/job_worker.py` and the handlers it runs (`app/workers/handlers/`).

A handler is a tree of its own: it may poll for cancellation any number of times, is told each time
what the poll answered (or that it raised), and ends by returning or raising. That is all the worker
can see of it. The three registered handlers are written out below; everything proved about the
worker holds for any registry. -/

set_option autoImplicit false

namespace CloudJob

open Lib

/-! ## Handlers -/

/-- What `handler.execute(payload, cancellation_requested=…)` does between the worker's own
calls. -/
inductive HandlerRun where
  | done
  | raise (e : Exc)
  | poll (k : Except Exc Bool → HandlerRun)

/-- `JobHandlerRegistry`: the handler of a job type, applied to the payload. -/
abbrev HandlerRegistry := JobType → Option (Json → HandlerRun)

/-- The loop of `SleepJobHandler.execute` with `n` chunks left to sleep. -/
def sleepLoop : Nat → HandlerRun
  | 0 => .done
  | n + 1 => .poll fun r => match r with
    | .error e => .raise e
    | .ok true => .raise (.jobCancellationRequested "Job cancellation requested")
    | .ok false => sleepLoop n

/-- `1 / SLEEP_CHUNK_SECONDS`. -/
def CHUNKS_PER_SECOND : Int := 4

/-- `SleepJobHandler.execute`: the seconds, `float(payload["duration_seconds"])`, are slept in
chunks of `SLEEP_CHUNK_SECONDS = 0.25`, the last of which may be shorter; none where there are no
seconds to sleep. -/
def sleepHandler (payload : Json) : HandlerRun :=
  match payload.get? "duration_seconds" with
  | none => .raise (.handler "'duration_seconds'")
  | some value =>
      match value.toFloat with
      | .error text => .raise (.handler text)
      | .ok seconds => sleepLoop (seconds.scale CHUNKS_PER_SECOND).ceil.toNat

def successHandler (_ : Json) : HandlerRun := .done

def DEFAULT_FAILURE_MESSAGE : String := "Failure handler requested job failure"

def failureHandler (payload : Json) : HandlerRun :=
  match payload.get? "message" with
  | some (.str message) =>
      if message = "" then .raise (.jobExecution DEFAULT_FAILURE_MESSAGE)
      else .raise (.jobExecution message)
  | _ => .raise (.jobExecution DEFAULT_FAILURE_MESSAGE)

def buildJobHandlerRegistry : HandlerRegistry
  | .sleep => some sleepHandler
  | .success => some successHandler
  | .failure => some failureHandler

/-- The poll answered `true`. -/
def saysStop : Except Exc Bool → Bool
  | .ok b => b
  | .error _ => false

/-- The handler raises `JobCancellationRequestedError` only after a poll has answered `true`;
`asked` says whether one has. -/
def HandlerRun.Honest : Bool → HandlerRun → Prop
  | _, .done => True
  | asked, .raise e => ∀ text, e = .jobCancellationRequested text → asked = true
  | asked, .poll k => ∀ r, (∀ text, r ≠ .error (.jobCancellationRequested text)) →
      Honest (asked || saysStop r) (k r)

def HandlerRegistry.Honest (registry : HandlerRegistry) : Prop :=
  ∀ type handler payload, registry type = some handler → (handler payload).Honest false

theorem sleepLoop_honest : ∀ (n : Nat) (asked : Bool), (sleepLoop n).Honest asked
  | 0, _ => trivial
  | n + 1, asked => by
    intro r hr
    cases r with
    | error e =>
      intro text he
      exact absurd (congrArg Except.error he) (hr text)
    | ok requested =>
      cases requested with
      | true => exact fun _ _ => Bool.or_true asked
      | false => exact sleepLoop_honest n _

/-- The three registered handlers do. -/
theorem buildJobHandlerRegistry_honest : HandlerRegistry.Honest buildJobHandlerRegistry := by
  intro type handler payload h
  cases type with
  | sleep =>
    cases h
    unfold sleepHandler
    split
    · exact nofun
    · split
      · exact nofun
      · exact sleepLoop_honest _ _
  | success =>
    cases h
    trivial
  | failure =>
    cases h
    unfold failureHandler
    split
    · split <;> exact nofun
    · exact nofun

/-! ## The worker -/

def CAPACITY_DEFER_SECONDS : Nat := 3

def MAX_JOB_ERROR_LENGTH : Nat := 1000

def MAX_TOTAL_JOB_ATTEMPTS : Nat := 4

/-- `RETRY_BACKOFF_SECONDS_BY_ATTEMPT`. -/
def RETRY_BACKOFF_SECONDS_BY_ATTEMPT : List (Nat × Nat) := [(1, 5), (2, 15), (3, 30)]

/-- `error[: n - 3] + "..."`, where the text is longer than `n`. -/
def truncateError (n : Nat) (error : String) : String :=
  if error.length ≤ n then error else String.ofList (error.toList.take (n - 3)) ++ "..."

/-- What a worker is constructed with. -/
structure JobWorker where
  settings : Settings
  workerId : String
  handlerRegistry : HandlerRegistry

structure ExecutionClaim where
  job : JobExecutionDTO
  executionToken : Uuid
  attemptNumber : Nat

namespace JobWorker

/-- `_max_total_attempts`. -/
def maxTotalAttempts (job : JobExecutionDTO) : Nat :=
  min (job.maxRetries + 1) MAX_TOTAL_JOB_ATTEMPTS

/-- `_retry_backoff_seconds`: a dictionary access. -/
def retryBackoffSeconds (attemptNumber : Nat) : Code Nat :=
  match RETRY_BACKOFF_SECONDS_BY_ATTEMPT.lookup attemptNumber with
  | some n => .ret n
  | none => .raise (.keyError attemptNumber)

/-- `JobWorker._notify_post_commit`. -/
def notifyPostCommit (jobId ownerId : Uuid) (status : JobStatus) (attemptCount : Nat)
    (committedAt : Datetime) : Code Unit :=
  Prog.tryCatch
    (notifyJobStateChanged ⟨jobId, ownerId, status, attemptCount, committedAt, none⟩)
    fun _ => .ret ()

/-- The branch of `_claim_execution` for a job with no attempt left. -/
def failExhausted (job : JobExecutionDTO) (now : Datetime) : Code Unit := do
  let failed ← Jobs.markFailedWithoutExecution job.id .queued now
    "Job exceeded the maximum execution attempts"
  if failed then
    JobLogs.createSystemLog job.id "error"
      "Job failed before execution because it exceeded the maximum attempts"
    commit
    notifyPostCommit job.id job.ownerId .failed job.attemptCount now
  else return ()

/-- `if deferred_event is not None: create_system_log(…)`. -/
def logDeferral (job : JobExecutionDTO) : Option OutboxEvent → Code Unit
  | none => .ret ()
  | some _ => JobLogs.createSystemLog job.id "info"
      "Job dispatch deferred because the owner reached the running-job limit"

/-- The branch of `_claim_execution` for an owner at capacity. -/
def deferForCapacity (job : JobExecutionDTO) (now : Datetime) : Code Unit := do
  let deferUntil := now + seconds CAPACITY_DEFER_SECONDS
  let deferredEvent ← Outbox.createDispatchEventIfAbsent job.id deferUntil
  logDeferral job deferredEvent
  commit
  notifyPostCommit job.id job.ownerId .queued job.attemptCount now

/-- The last part of `_claim_execution`: take the job. -/
def takeJob (w : JobWorker) (job : JobExecutionDTO) (executionToken : Uuid) (now : Datetime) :
    Code (Option ExecutionClaim) := do
  let nextAttemptNumber := job.attemptCount + 1
  let claimed ← Jobs.markRunning job.id w.workerId executionToken now
    (now + seconds w.settings.jobLeaseSeconds)
  if claimed then
    JobLogs.createSystemLog job.id "info" "Job execution started"
    commit
    notifyPostCommit job.id job.ownerId .running nextAttemptNumber now
    return some ⟨job, executionToken, nextAttemptNumber⟩
  else return none

/-- The branches of `_claim_execution` once owner and job are locked. -/
def decideClaim (w : JobWorker) (ownerId : Uuid) (job : JobExecutionDTO) (executionToken : Uuid)
    (now : Datetime) : Code (Option ExecutionClaim) := do
  if job.status = .pending then return none
  if job.status = .running then return none
  if job.status.isTerminal then return none
  if job.attemptCount + 1 > maxTotalAttempts job then
    failExhausted job now
    return none
  else
    let runningCount ← Jobs.countRunningForOwner ownerId
    if runningCount ≥ w.settings.jobMaxRunningPerUser then
      deferForCapacity job now
      return none
    else takeJob w job executionToken now

/-- The body of `_claim_execution`'s unit of work. -/
def claimLocked (w : JobWorker) (dispatchMessage : DispatchOutboxMessage) (executionToken : Uuid)
    (now : Datetime) : Code (Option ExecutionClaim) := do
  let some ownerId ← Jobs.getOwnerId dispatchMessage.jobId | return none
  let user ← Users.lockById ownerId
  if user = false then return none
  let some job ← Jobs.getExecutionCandidateForUpdate dispatchMessage.jobId | return none
  decideClaim w ownerId job executionToken now

/-- `_claim_execution`. -/
def claimExecution (w : JobWorker) (dispatchMessage : DispatchOutboxMessage) :
    Code (Option ExecutionClaim) := do
  let now ← utcNow
  let executionToken ← uuid4
  withUow (claimLocked w dispatchMessage executionToken now)

/-- `_is_cancellation_requested`. -/
def isCancellationRequested (claim : ExecutionClaim) : Code Bool :=
  withUow do
    let currentJob ← Jobs.getExecutionCandidateForUpdate claim.job.id
    match currentJob with
    | none => return true
    | some currentJob =>
        if currentJob.executionToken ≠ some claim.executionToken then return true
        else return currentJob.cancelRequestedAt.isSome

/-- `_mark_completed`. -/
def markCompleted (claim : ExecutionClaim) : Code Unit := do
  let now ← utcNow
  withUow do
    let completed ← Jobs.markCompleted claim.job.id claim.executionToken now
    if completed then
      JobLogs.createSystemLog claim.job.id "info" "Job completed"
      commit
      notifyPostCommit claim.job.id claim.job.ownerId .completed claim.attemptNumber now
    else return ()

/-- `_mark_cancelled`. -/
def markCancelled (claim : ExecutionClaim) : Code Unit := do
  let now ← utcNow
  withUow do
    let cancelled ← Jobs.markCancelled claim.job.id claim.executionToken now
    if cancelled then
      JobLogs.createSystemLog claim.job.id "info"
        s!"Job cancelled during attempt {claim.attemptNumber}"
      commit
      notifyPostCommit claim.job.id claim.job.ownerId .cancelled claim.attemptNumber now
    else return ()

/-- `_mark_failed`. -/
def markFailed (claim : ExecutionClaim) (error : String) : Code Unit := do
  let now ← utcNow
  let errorMessage := truncateError MAX_JOB_ERROR_LENGTH error
  withUow do
    let failed ← Jobs.markFailed claim.job.id claim.executionToken now errorMessage
    if failed then
      JobLogs.createSystemLog claim.job.id "error"
        s!"Job attempt {claim.attemptNumber} became a final failure: {errorMessage}"
      commit
      notifyPostCommit claim.job.id claim.job.ownerId .failed claim.attemptNumber now
    else return ()

/-- `_schedule_retry`. -/
def scheduleRetry (claim : ExecutionClaim) (error : String) : Code Unit := do
  let now ← utcNow
  let errorMessage := truncateError MAX_JOB_ERROR_LENGTH error
  let retryDelaySeconds ← retryBackoffSeconds claim.attemptNumber
  let retryAvailableAt := now + seconds retryDelaySeconds
  withUow do
    let requeued ← Jobs.requeueRunning claim.job.id claim.executionToken now errorMessage
    if requeued then
      let _ ← Outbox.createDispatchEventIfAbsent claim.job.id retryAvailableAt
      let attempt := s!"Job attempt {claim.attemptNumber} failed and was queued "
      JobLogs.createSystemLog claim.job.id "warning"
        (attempt ++ s!"for retry in {retryDelaySeconds} seconds: {errorMessage}")
      commit
      notifyPostCommit claim.job.id claim.job.ownerId .queued claim.attemptNumber now
    else return ()

/-- `_finalize_failure`. -/
def finalizeFailure (claim : ExecutionClaim) (error : String) : Code Unit :=
  if claim.attemptNumber ≥ maxTotalAttempts claim.job then markFailed claim error
  else scheduleRetry claim error

/-- The handler's own run, its polls answered by `_is_cancellation_requested`. -/
def runHandler (claim : ExecutionClaim) : HandlerRun → Code Unit
  | .done => .ret ()
  | .raise e => .raise e
  | .poll k => (isCancellationRequested claim).attempt.bind fun r => runHandler claim (k r)

/-- The `try` body of `_execute_claim`. -/
def executeHandler (w : JobWorker) (claim : ExecutionClaim) : Code Unit :=
  match w.handlerRegistry claim.job.type with
  | none => .raise (.missingJobHandler s!"No handler is registered for '{claim.job.type.value}'")
  | some handler => (call (.startHandler claim.job.id claim.executionToken)).bind fun _ =>
      runHandler claim (handler claim.job.payload)

/-- `_execute_claim`. -/
def executeClaim (w : JobWorker) (claim : ExecutionClaim) : Code Unit := do
  let outcome ← (executeHandler w claim).attempt
  match outcome with
  | .error (.jobCancellationRequested _) => markCancelled claim
  | .error (.missingJobHandler text) => markFailed claim text
  | .error (.jobExecution text) => finalizeFailure claim text
  | .error e => finalizeFailure claim e.str
  | .ok _ => markCompleted claim

/-- `handle_message`. -/
def handleMessage (w : JobWorker) (message : Message) : Code Unit :=
  match message.body with
  | .invalid _ => call (.reject message.id)
  | .dispatch dispatchMessage => do
      let claim ← claimExecution w dispatchMessage
      match claim with
      | none => call (.ack message.id)
      | some claim =>
          executeClaim w claim
          call (.ack message.id)

end JobWorker

end CloudJob
