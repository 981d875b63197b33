import Mathlib.Data.List.Infix
import CloudJob.Json

/-!
# `Domain.lean` — enumerations, the state policy, values

`app/domain/enums.py`, `app/domain/job_state.py` and the value types the rest of the program passes
around. Identifiers are naturals (`uuid.UUID` is used for equality, for ordering, and as something
`uuid4` makes fresh, and for nothing else); a timezone-aware `datetime` is its count of
microseconds, so that comparison and `timedelta` are integer arithmetic. -/

set_option autoImplicit false

namespace CloudJob

abbrev Uuid := Nat

/-- Microseconds since the epoch, UTC. -/
abbrev Datetime := Int

/-- `timedelta(seconds=n)`. -/
def seconds (n : Nat) : Int := 1000000 * (n : Int)

inductive UserRole where
  | user
  | admin
deriving DecidableEq, Repr

inductive JobStatus where
  | pending
  | queued
  | running
  | completed
  | failed
  | cancelled
deriving DecidableEq, Repr

namespace JobStatus

def value : JobStatus → String
  | .pending => "pending"
  | .queued => "queued"
  | .running => "running"
  | .completed => "completed"
  | .failed => "failed"
  | .cancelled => "cancelled"

/-- `{COMPLETED, FAILED, CANCELLED}`, the set the worker and the event stream test for. -/
def isTerminal : JobStatus → Bool
  | .completed | .failed | .cancelled => true
  | _ => false

/-- `{PENDING, QUEUED}`, the set the publisher and the cancel path test for. -/
def isDispatchable : JobStatus → Bool
  | .pending | .queued => true
  | _ => false

end JobStatus

inductive JobType where
  | sleep
  | success
  | failure
deriving DecidableEq, Repr

def JobType.value : JobType → String
  | .sleep => "sleep"
  | .success => "success"
  | .failure => "failure"

inductive JobEventType where
  | dispatch
deriving DecidableEq, Repr

/-! ## `JobStatePolicy` -/

namespace JobStatePolicy

/-- `_allowed_transitions`. -/
def allowedTransitions : JobStatus → List JobStatus
  | .pending => [.queued, .cancelled]
  | .queued => [.running, .cancelled]
  | .running => [.completed, .queued, .failed, .cancelled]
  | .completed => []
  | .failed => []
  | .cancelled => []

def canTransition (current target : JobStatus) : Bool :=
  (allowedTransitions current).contains target

end JobStatePolicy

/-! ## Exceptions

Everything that can propagate out of a call. The external kinds (`database`, `broker`, `redis`)
carry the driver's text, which `str(exc)` hands to the error columns. -/

/-- What `exc.orig` of an `IntegrityError` offers. -/
structure IntegrityError where
  sqlstate : Option String
  constraintName : Option String
  text : String
deriving DecidableEq, Repr

inductive Exc where
  | database (text : String)
  | integrity (orig : IntegrityError)
  | broker (text : String)
  | redis (text : String)
  | validation (text : String)
  | rateLimitExceeded
  | duplicateJobIdempotencyKey
  | idempotencyConflict
  | jobNotCancellable
  | resourceNotFound (text : String)
  | runtimeError (text : String)
  | keyError (key : Nat)
  | missingJobHandler (text : String)
  | jobExecution (text : String)
  | jobCancellationRequested (text : String)
  | handler (text : String)
  | crashed
deriving DecidableEq, Repr

/-- `str(exc)`. -/
def Exc.str : Exc → String
  | .database t | .broker t | .redis t | .validation t | .resourceNotFound t | .runtimeError t
  | .missingJobHandler t | .jobExecution t | .jobCancellationRequested t | .handler t => t
  | .integrity orig => orig.text
  | .rateLimitExceeded => "Create job rate limit exceeded"
  | .duplicateJobIdempotencyKey => "Idempotency key is already in use"
  | .idempotencyConflict => "Idempotency key conflicts with a different request"
  | .jobNotCancellable => "Job cannot be cancelled in its current state"
  | .keyError key => toString key
  | .crashed => ""

/-- A failure of a system outside the program. -/
def Exc.isExternal : Exc → Bool
  | .database _ | .broker _ | .redis _ => true
  | _ => false

/-- `needle in haystack`. -/
def contains (haystack needle : String) : Bool := decide (needle.toList <:+: haystack.toList)

/-- `_is_duplicate_job_idempotency_key_error`. -/
def isDuplicateJobIdempotencyKeyError (orig : IntegrityError) : Bool :=
  if orig.sqlstate ≠ some "23505" then false
  else match orig.constraintName with
    | some name => name = "uq_jobs_owner_id_idempotency_key"
    | none => contains orig.text.toLower "jobs" && contains orig.text.toLower "idempotency_key"

end CloudJob
