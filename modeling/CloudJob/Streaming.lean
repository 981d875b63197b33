import CloudJob.Lib.Machine
import CloudJob.Db

/-!
# `Streaming.lean` — `stream_job_events` and pub/sub

The event stream of `app/api/routes/jobs.py` over `RedisJobStatusPubSub`, among processes that
commit transitions of jobs and publish their events.

Pub/sub keeps nothing: an event goes to the subscriptions that are open when it is published. The
generator behind a subscription does not survive being cancelled, which is what the timeout of
`wait_for` does to it: its `finally` unsubscribes, and asking it once more raises
`StopAsyncIteration`. Nothing is awaited between receiving an event and yielding it, so that
`forward` is one step.

The `while True` of the stream is a number of rounds, after which the client is gone.
-/

set_option autoImplicit false

namespace CloudJob

open Lib

/-- What the stream yields. -/
inductive SseChunk where
  /-- `_format_sse_event(event)`. -/
  | status (ev : JobStatusEvent)
  | keepAlive
  /-- `_format_stream_error_event(code)`. -/
  | error (code : String)
deriving DecidableEq, Repr

inductive StreamExc where
  | resourceNotFound
  | timeoutError
  | jobStatusPubSubError
  | stopAsyncIteration
  | crashed
deriving DecidableEq, Repr

inductive StreamOp where
  | getJobDetail (currentUser : CurrentUserDTO) (jobId : Uuid)
  | emit (chunk : SseChunk)
  | subscribe (jobId : Uuid)
  | isDisconnected
  | forward
  | aclose
  | transition (ev : JobStatusEvent)
  | publish (ev : JobStatusEvent)

@[reducible] def StreamOp.Ret : StreamOp → Type
  | .getJobDetail _ _ => JobPublicDTO
  | .isDisconnected => Bool
  | .forward => JobStatusEvent
  | .transition _ => Bool
  | _ => Unit

@[reducible] def streamSig : Sig := ⟨StreamOp, StreamOp.Ret, StreamExc⟩

abbrev StreamCode (α : Type) := Prog streamSig α

def streamCall (o : StreamOp) : StreamCode o.Ret := Prog.perform (S := streamSig) o

/-! ## The programs -/

/-- `_job_snapshot_event`. -/
def jobSnapshotEvent (job : JobPublicDTO) : JobStatusEvent where
  jobId := job.id
  status := job.status
  attemptCount := job.attemptCount
  occurredAt := job.updatedAt
  cancelRequestedAt := job.cancelRequestedAt

/-- The `while True` of `event_stream`. -/
def forwardEvents : Nat → StreamCode Unit
  | 0 => .ret ()
  | rounds + 1 => do
      if ← streamCall .isDisconnected then return
      match ← (streamCall .forward).attempt with
      | .ok event => if event.status.isTerminal then return else forwardEvents rounds
      | .error .timeoutError =>
          streamCall (.emit .keepAlive)
          forwardEvents rounds
      | .error .jobStatusPubSubError => streamCall (.emit (.error "reconnect"))
      | .error .stopAsyncIteration => return
      | .error e => .raise e

/-- `stream_job_events`. -/
def streamJobEvents (currentUser : CurrentUserDTO) (jobId : Uuid) (rounds : Nat) :
    StreamCode Unit := do
  let currentJob ← streamCall (.getJobDetail currentUser jobId)
  let snapshotEvent := jobSnapshotEvent currentJob
  streamCall (.emit (.status snapshotEvent))
  if snapshotEvent.status.isTerminal then return
  streamCall (.subscribe jobId)
  let outcome ← (forwardEvents rounds).attempt
  streamCall .aclose
  Prog.ofExcept outcome

/-- A writer: it commits a transition and then publishes the event of it. -/
def commitAndPublish (ev : JobStatusEvent) : StreamCode Unit := do
  if ← streamCall (.transition ev) then streamCall (.publish ev)

/-! ## The machine -/

structure Subscription where
  jobId : Uuid
  /-- The events that wait to be received, the oldest first. -/
  waiting : List JobStatusEvent
deriving DecidableEq, Repr

structure StreamState where
  db : Db
  subscriptions : Pid → Option Subscription
  emitted : Pid → List SseChunk
  /-- The events published so far. -/
  published : List JobStatusEvent
  /-- A stream that has loaded a job which was not terminal, and has not subscribed yet. -/
  loaded : Pid → Option Uuid

inductive StreamChoice where
  | answer
  /-- `request.is_disconnected()` holds. -/
  | gone
  | timeout
  | fails

inductive StreamRequest where
  | stream (currentUser : CurrentUserDTO) (jobId : Uuid) (rounds : Nat)
  | write (ev : JobStatusEvent)

namespace StreamState

/-- `_load_authorized_job`. -/
def visibleJob (s : StreamState) (currentUser : CurrentUserDTO) (jobId : Uuid) : Option Job :=
  (s.db.job jobId).filter fun job => currentUser.role = .admin || job.ownerId == currentUser.id

/-- The row after the transition an event tells of. -/
def moveTo (ev : JobStatusEvent) (job : Job) : Job :=
  { job with status := ev.status, attemptCount := ev.attemptCount, updatedAt := ev.occurredAt }

/-- Redis hands the event to everyone who is subscribed. -/
def deliver (ev : JobStatusEvent) (sub : Subscription) : Subscription :=
  if sub.jobId = ev.jobId then { sub with waiting := sub.waiting ++ [ev] } else sub

def addChunk (p : Pid) (chunk : SseChunk) (s : StreamState) : StreamState :=
  { s with emitted := Function.update s.emitted p (s.emitted p ++ [chunk]) }

def close (p : Pid) (s : StreamState) : StreamState :=
  { s with subscriptions := Function.update s.subscriptions p none }

def exec (p : Pid) : (o : StreamOp) → StreamChoice → StreamState →
    Option (Except StreamExc o.Ret × StreamState)
  | .getJobDetail currentUser jobId, .answer, s =>
      match s.visibleJob currentUser jobId with
      | none => some (.error .resourceNotFound, s)
      | some job => some (.ok (toJobPublicDto (toStoredJobDto job)),
          if job.status.isTerminal then s else
          { s with loaded := Function.update s.loaded p (some jobId) })
  | .emit chunk, .answer, s => some (.ok (), s.addChunk p chunk)
  | .subscribe jobId, .answer, s => some (.ok (), { s with
      subscriptions := Function.update s.subscriptions p (some ⟨jobId, []⟩)
      loaded := Function.update s.loaded p none })
  | .isDisconnected, .answer, s => some (.ok false, s)
  | .isDisconnected, .gone, s => some (.ok true, s)
  | .forward, .answer, s =>
      match s.subscriptions p with
      | none => some (.error .stopAsyncIteration, s)
      | some ⟨_, []⟩ => none
      | some ⟨jobId, event :: rest⟩ => some (.ok event,
          { s with subscriptions := Function.update s.subscriptions p (some ⟨jobId, rest⟩) }.addChunk p
            (.status event))
  | .forward, .timeout, s =>
      match s.subscriptions p with
      | none => none
      | some _ => some (.error .timeoutError, s.close p)
  | .forward, .fails, s =>
      match s.subscriptions p with
      | none => none
      | some _ => some (.error .jobStatusPubSubError, s.close p)
  | .aclose, .answer, s => some (.ok (), s.close p)
  | .transition ev, .answer, s =>
      match s.db.job ev.jobId with
      | none => some (.ok false, s)
      | some job =>
          if JobStatePolicy.canTransition job.status ev.status then
            some (.ok true, { s with db := { s.db with
              jobs := s.db.jobs.modify ev.jobId (moveTo ev) fun _ => rfl } })
          else some (.ok false, s)
  | .publish ev, .answer, s => some (.ok (), { s with
      subscriptions := fun q => (s.subscriptions q).map (deliver ev)
      published := s.published ++ [ev] })
  | _, _, _ => none

def init (db : Db) : StreamState := ⟨db, fun _ => none, fun _ => [], [], fun _ => none⟩

end StreamState

/-- Streams and writers. A process that dies takes its subscription with it. -/
def streamMachine : Machine streamSig where
  State := StreamState
  Choice := StreamChoice
  Env := Empty
  Call := StreamRequest
  Out := Unit
  exec := StreamState.exec
  env e := nomatch e
  crash p s := { s.close p with loaded := Function.update s.loaded p none }
  crashed := .crashed
  prog
    | .stream currentUser jobId rounds => streamJobEvents currentUser jobId rounds
    | .write ev => commitAndPublish ev
  start _ _ s := some s

def StreamState.world (db : Db) : World streamMachine := ⟨StreamState.init db, fun _ => none⟩

end CloudJob
