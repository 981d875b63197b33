import CloudJob.Uow

/-!
# `Recovery.lean` — `StaleRunningRecovery`

`app/workers/stale_running_recovery.py`.
-/

set_option autoImplicit false

namespace CloudJob

open Lib

def RECOVERY_FINAL_FAILURE_MESSAGE : String :=
  "Job failed after stale running recovery exhausted retries"

def RECOVERY_REQUEUE_MESSAGE : String :=
  "Job recovered from stale running state and queued for retry"

namespace StaleRunningRecovery

/-- `_max_total_attempts`, this module's own copy. -/
def maxTotalAttempts (job : JobExecutionDTO) : Nat := min (job.maxRetries + 1) 4

/-- `StaleRunningRecovery._notify_post_commit`. -/
def notifyPostCommit (n : JobPostCommitNotification) : Code Unit :=
  Prog.tryCatch (notifyJobStateChanged n) fun _ => .ret ()

/-- The notification of a recovered job. -/
def notification (job : JobExecutionDTO) (status : JobStatus) (now : Datetime) :
    JobPostCommitNotification :=
  ⟨job.id, job.ownerId, status, job.attemptCount, now, none⟩

/-- `_recover_stale_job` for a job with no attempt left. -/
def failStaleJob (job : JobExecutionDTO) (token : Uuid) (now : Datetime) :
    Code (Option JobPostCommitNotification) := do
  let failed ← Jobs.markFailed job.id token now RECOVERY_FINAL_FAILURE_MESSAGE
  if failed then
    let attempt := s!"Job attempt {job.attemptCount} became a final failure during "
    JobLogs.createSystemLog job.id "error"
      (attempt ++ s!"stale running recovery: {RECOVERY_FINAL_FAILURE_MESSAGE}")
    return some (notification job .failed now)
  else return none

/-- `_recover_stale_job` for a job that is tried again. -/
def requeueStaleJob (job : JobExecutionDTO) (token : Uuid) (now : Datetime) :
    Code (Option JobPostCommitNotification) := do
  let requeued ← Jobs.requeueRunning job.id token now RECOVERY_REQUEUE_MESSAGE
  if requeued then
    let _ ← Outbox.createDispatchEventIfAbsent job.id now
    JobLogs.createSystemLog job.id "warning"
      s!"Job attempt {job.attemptCount} was recovered from stale running state and queued for retry"
    return some (notification job .queued now)
  else return none

/-- `_recover_stale_job`. -/
def recoverStaleJob (job : JobExecutionDTO) (now : Datetime) :
    Code (Option JobPostCommitNotification) := do
  match job.executionToken with
  | none => return none
  | some token =>
      let owner ← Users.lockById job.ownerId
      if owner = false then return none
      if job.attemptCount + 1 > maxTotalAttempts job then failStaleJob job token now
      else requeueStaleJob job token now

/-- The loop over the batch; the answer is `notifications`, whose length is `recovered_count`. -/
def recoverAll (now : Datetime) : List JobExecutionDTO → Code (List JobPostCommitNotification)
  | [] => .ret []
  | job :: rest => do
      let n ← recoverStaleJob job now
      let ns ← recoverAll now rest
      return n.toList ++ ns

/-- The loop that sends them. -/
def notifyAll : List JobPostCommitNotification → Code Unit
  | [] => .ret ()
  | n :: ns => do
      notifyPostCommit n
      notifyAll ns

/-- `if recovered_count > 0: await uow.commit()`. -/
def commitRecovered : List JobPostCommitNotification → Code Unit
  | [] => .ret ()
  | _ :: _ => commit

/-- `recover_due_batch_once`. -/
def recoverDueBatchOnce (settings : Settings) : Code Nat := do
  let now ← utcNow
  let notifications ← withUow do
    let staleJobs ← Jobs.claimExpiredRunningJobsForUpdate now settings.recoveryBatchSize
    let notifications ← recoverAll now staleJobs
    commitRecovered notifications
    return notifications
  notifyAll notifications
  return notifications.length

end StaleRunningRecovery

end CloudJob
