import CloudJob.Streaming

/-!
# `Heartbeat.lean` — `event_iterator` under `wait_for`

The generator behind a subscription, awaited for `SSE_HEARTBEAT_SECONDS` at a time, and the stream
over it while the client stays and Redis works. What is published for the job is a timeline: the
events, and how long nothing comes before each of them. All times are microseconds.

`wait_for` cancels what it waits for. The `except Exception` of the generator does not catch
`CancelledError`, so that the generator leaves through its `finally` and is exhausted.
-/

set_option autoImplicit false

namespace CloudJob

open Lib

def SSE_HEARTBEAT_SECONDS : Nat := 15

def microseconds (n : Nat) : Nat := n * 1000000

/-- The `timeout` of `get_message`. -/
def GET_MESSAGE_TIMEOUT_SECONDS : Nat := 1

/-- What is published for the job: each event with the time since the one before; `none` where
nothing comes any more. -/
abbrev Timeline := Nat → Option (Nat × JobStatusEvent)

namespace Timeline

/-- After the first event. -/
def later (t : Timeline) : Timeline := fun n => t (n + 1)

/-- After a time in which nothing came. -/
def elapse (d : Nat) (t : Timeline) : Timeline
  | 0 => (t 0).map fun x => (x.1 - d, x.2)
  | n + 1 => t (n + 1)

end Timeline

/-! ## The generator -/

/-- What is raised inside the generator. -/
inductive IteratorExc where
  | cancelledError
  | redisError
deriving DecidableEq, Repr

/-- `except Exception` catches it: `CancelledError` is a `BaseException` only. -/
def IteratorExc.isException : IteratorExc → Bool
  | .cancelledError => false
  | .redisError => true

/-- What an awaited `get_message` comes to. -/
inductive Awaited where
  | message (ev : JobStatusEvent)
  | nothing
  | raised (e : IteratorExc)

/-- `await pubsub.get_message(timeout=1.0)`, cancelled when `left` has passed. -/
def getMessage (left : Nat) (t : Timeline) : Awaited × Timeline :=
  match (t 0).filter fun x => x.1 < min left (microseconds GET_MESSAGE_TIMEOUT_SECONDS) with
  | some (_, ev) => (.message ev, t.later)
  | none =>
      if left ≤ microseconds GET_MESSAGE_TIMEOUT_SECONDS then
        (.raised .cancelledError, t.elapse left)
      else (.nothing, t.elapse (microseconds GET_MESSAGE_TIMEOUT_SECONDS))

theorem getMessage_nothing {left : Nat} {t t' : Timeline} (h : getMessage left t = (.nothing, t')) :
    microseconds GET_MESSAGE_TIMEOUT_SECONDS < left := by
  unfold getMessage at h
  split at h
  · cases h
  · split at h
    · cases h
    · omega

/-- How the body of the generator leaves its loop. -/
inductive IteratorExit where
  | yields (ev : JobStatusEvent)
  | raises (e : StreamExc)
  | cancelled

/-- What is raised in the `try` around `get_message`. -/
def IteratorExc.exit (e : IteratorExc) : IteratorExit :=
  if e.isException then .raises .jobStatusPubSubError else .cancelled

/-- The `while True` of `event_iterator`, to the next `yield`. -/
def iterate (left : Nat) (t : Timeline) : IteratorExit × Timeline :=
  match _h : getMessage left t with
  | (.message ev, t') => (.yields ev, t')
  | (.raised e, t') => (e.exit, t')
  | (.nothing, t') => iterate (left - microseconds GET_MESSAGE_TIMEOUT_SECONDS) t'
termination_by left
decreasing_by
  have hlt := getMessage_nothing _h
  have hpos : 0 < microseconds GET_MESSAGE_TIMEOUT_SECONDS := by decide
  omega

/-- The generator: suspended at its `yield`, or exhausted. -/
structure EventIterator where
  exhausted : Bool
  timeline : Timeline

/-- `asyncio.wait_for(events.__anext__(), timeout=SSE_HEARTBEAT_SECONDS)`. A generator that leaves
its body with an exception has run its `finally`, and is exhausted. -/
def EventIterator.waitForNext (it : EventIterator) :
    Except StreamExc JobStatusEvent × EventIterator :=
  if it.exhausted then (.error .stopAsyncIteration, it)
  else match iterate (microseconds SSE_HEARTBEAT_SECONDS) it.timeline with
    | (.yields ev, t) => (.ok ev, ⟨false, t⟩)
    | (.raises e, t) => (.error e, ⟨true, t⟩)
    | (.cancelled, t) => (.error .timeoutError, ⟨true, t⟩)

/-! ## The stream over it -/

structure SseConnection where
  iterator : EventIterator
  emitted : List SseChunk
  /-- How many rounds of the loop were begun. -/
  asked : Nat

namespace SseConnection

/-- The answers the stream gets while the client is connected and Redis works. -/
def answer (job : JobPublicDTO) (t : Timeline) :
    (o : StreamOp) → SseConnection → Except StreamExc o.Ret × SseConnection
  | .getJobDetail _ _, s => (.ok job, s)
  | .emit chunk, s => (.ok (), { s with emitted := s.emitted ++ [chunk] })
  | .subscribe _, s => (.ok (), { s with iterator := ⟨false, t⟩ })
  | .isDisconnected, s => (.ok false, { s with asked := s.asked + 1 })
  | .forward, s =>
      match s.iterator.waitForNext with
      | (.ok event, it) =>
        (.ok event, { s with iterator := it, emitted := s.emitted ++ [.status event] })
      | (.error e, it) => (.error e, { s with iterator := it })
  | .aclose, s => (.ok (), { s with iterator := { s.iterator with exhausted := true } })
  | .transition _, s => (.ok false, s)
  | .publish _, s => (.ok (), s)

/-- The statuses the client was sent. -/
def forwarded (s : SseConnection) : List JobStatusEvent :=
  s.emitted.filterMap fun chunk => match chunk with
    | .status ev => some ev
    | _ => none

end SseConnection

/-- `stream_job_events` after at most `rounds` rounds of its loop, where `t` is what is published
for the job from when the stream has subscribed. -/
def streamed (currentUser : CurrentUserDTO) (job : JobPublicDTO) (t : Timeline) (rounds : Nat) :
    SseConnection :=
  ((streamJobEvents currentUser job.id rounds).eval (SseConnection.answer job t)
    ⟨⟨true, t⟩, [], 0⟩).2

end CloudJob
