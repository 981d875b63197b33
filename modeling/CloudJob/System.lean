import CloudJob.Service
import CloudJob.Publisher
import CloudJob.Recovery

/-!
# `System.lean` — the deployed system

API requests, publishers, workers and recovery loops, any number of each, on one database, one
broker and one Redis: the machine of `Lib/Machine.lean` whose calls are those of `Runtime.lean` and
whose operations are the five entry points. A consumer is started on any message the broker holds,
as often as the broker likes, which covers redelivery of an unacked message; duplicates are an
environment step. -/

set_option autoImplicit false

namespace CloudJob

open Lib

/-- What a deployment fixes. -/
structure Params where
  /-- `reads t r`: a clock may read `r` when the time is `t`. -/
  reads : Datetime → Datetime → Bool
  /-- The settings a process may be running with. -/
  allows : Settings → Bool
  /-- `hashlib.sha256(text.encode("utf-8")).hexdigest()`. -/
  sha256 : String → String
  handlerRegistry : HandlerRegistry

/-- `_build_request_hash`, as deployed. -/
def Params.buildRequestHash (P : Params) : JobType → Json → String :=
  JobService.buildRequestHash P.sha256

/-- What the entry points return. -/
inductive Outcome where
  | created (result : JobCreateResultDTO)
  | job (job : JobPublicDTO)
  | count (n : Nat)
  | done

def Call.prog (P : Params) : Call → Code Outcome
  | .createJob settings user key type payload => do
      let r ← JobService.createJob P.sha256 settings user key type payload
      return .created r
  | .cancelJob user jobId => do
      let j ← JobService.cancelJob user jobId
      return .job j
  | .publishDueBatchOnce settings => do
      let n ← OutboxPublisher.publishDueBatchOnce settings
      return .count n
  | .handleMessage settings workerId message => do
      JobWorker.handleMessage ⟨settings, workerId, P.handlerRegistry⟩ message
      return .done
  | .recoverDueBatchOnce settings => do
      let n ← StaleRunningRecovery.recoverDueBatchOnce settings
      return .count n

/-- The process runs with settings the deployment has, on a message the broker holds. -/
def Call.admissible (P : Params) (c : Core) : Call → Bool
  | .createJob settings _ _ _ _ => P.allows settings
  | .cancelJob _ _ => true
  | .publishDueBatchOnce settings => P.allows settings
  | .handleMessage settings _ message => P.allows settings && decide (message ∈ c.broker)
  | .recoverDueBatchOnce settings => P.allows settings

/-- A process begins with no transaction of its own. -/
def Shared.start (P : Params) (p : Pid) (call : Call) (s : Shared) : Option Shared :=
  if call.admissible P s.core then
    some { s.release p with calls := Function.update s.calls p (some call) }
  else none

@[reducible] def machine (P : Params) : Machine sig where
  State := Shared
  Choice := Choice
  Env := EnvAct
  Call := Call
  Out := Outcome
  exec p o c s := s.exec P.reads p o c
  env := Shared.env
  crash p s := s.release p
  crashed := .crashed
  prog := Call.prog P
  start := Shared.start P

/-- An empty database, an empty broker, no process. -/
def World.init (P : Params) : World (machine P) := ⟨Shared.init, fun _ => none⟩

/-- The states some run of the system passes through. -/
def Reachable (P : Params) (w : World (machine P)) : Prop := (machine P).Reach (World.init P) w

/-! ## A run

The default deployment with clocks that are right, and one job on its way through it: created by
process 0, published by process 1, claimed and completed by process 2. -/

def Params.default : Params where
  reads now reading := reading == now
  allows settings := settings == {}
  sha256 text :=
    if text = "\x7b\"payload\":\x7b\x7d,\"type\":\"success\"\x7d" then
      "5dae73f3121fd9314e9798a73e7d3579fbf94c247247a4c1faf820e6b5b6725b"
    else if text = "\x7b\"payload\":\x7b\x7d,\"type\":\"failure\"\x7d" then
      "fca76727855711cc4bfbe4faaab6d21d62f0b1457b6a28766034937cfd2faa4c"
    else text
  handlerRegistry := buildJobHandlerRegistry

section Run

variable {P : Params}

/-- `p` makes `n` calls that are answered. -/
def answers (p : Pid) (n : Nat) : List (Move (machine P)) := List.replicate n (.run p .answer)

/-- User `u` creates job `j`, with dispatch event `e`; nothing fails. -/
def createMoves (p : Pid) (u j e : Uuid) (key : String) (type : JobType) (now : Datetime) :
    List (Move (machine P)) :=
  [.start p (.createJob {} ⟨u, .user⟩ key type (.obj []))] ++ answers p 2 ++
    [.run p (.reservation none), .run p (.uuid j), .run p (.time now), .run p (.time now)] ++
    answers p 1 ++ [.run p (.time now)] ++ answers p 1 ++
    [.run p (.time now), .run p (.time now), .run p (.uuid e)] ++ answers p 6

/-- A publisher publishes the one event that is due. -/
def publishMoves (p : Pid) (now : Datetime) : List (Move (machine P)) :=
  [.start p (.publishDueBatchOnce {}), .run p (.time now)] ++ answers p 6 ++ [.run p (.time now)] ++
    answers p 2 ++ [.run p (.time now)] ++ answers p 3

/-- A worker claims the job of message `m` as `token`. -/
def claimMoves (p : Pid) (m : Message) (token : Uuid) (now : Datetime) : List (Move (machine P)) :=
  [.start p (.handleMessage {} "w" m), .run p (.time now), .run p (.uuid token)] ++ answers p 6 ++
    [.run p (.time now)] ++ answers p 5

/-- The handler runs to its end without a poll, and the job is completed. -/
def completeMoves (p : Pid) (now : Datetime) : List (Move (machine P)) :=
  answers p 1 ++ [.run p (.time now)] ++ answers p 2 ++ [.run p (.time now)] ++ answers p 6

/-- User `u` asks for the running job `j` to be cancelled. -/
def requestCancelMoves (p : Pid) (u j : Uuid) (now : Datetime) : List (Move (machine P)) :=
  [.start p (.cancelJob ⟨u, .user⟩ j), .run p (.time now)] ++ answers p 3 ++ [.run p (.time now)] ++
    answers p 9

/-- The handler fails without a poll, and the job is queued for a retry with dispatch event `e`. -/
def retryMoves (p : Pid) (e : Uuid) (now : Datetime) : List (Move (machine P)) :=
  answers p 1 ++ [.run p (.time now)] ++ answers p 3 ++ [.run p (.time now), .run p (.uuid e)] ++
    answers p 1 ++ [.run p (.time now)] ++ answers p 6

/-- A publisher publishes the one event that is due, of a job that is queued already. -/
def republishMoves (p : Pid) (now : Datetime) : List (Move (machine P)) :=
  [.start p (.publishDueBatchOnce {}), .run p (.time now)] ++ answers p 7 ++ [.run p (.time now)] ++
    answers p 3

/-- Recovery queues the one job whose lease has expired, with dispatch event `e`. -/
def recoverMoves (p : Pid) (e : Uuid) (now : Datetime) : List (Move (machine P)) :=
  [.start p (.recoverDueBatchOnce {}), .run p (.time now)] ++ answers p 5 ++
    [.run p (.time now), .run p (.uuid e)] ++ answers p 1 ++ [.run p (.time now)] ++ answers p 5

/-- The job of the run, up to where it is claimed. -/
def claimedMoves : List (Move (machine P)) :=
  [.env (.register 1)] ++ createMoves 0 1 10 11 "k" .success 0 ++ publishMoves 1 0 ++
    claimMoves 2 ⟨0, .dispatch ⟨11, 10, 0⟩⟩ 20 0

/-- The same with a job that fails. -/
def claimedFailureMoves : List (Move (machine P)) :=
  [.env (.register 1)] ++ createMoves 0 1 10 11 "k" .failure 0 ++ publishMoves 1 0 ++
    claimMoves 2 ⟨0, .dispatch ⟨11, 10, 0⟩⟩ 20 0

end Run

end CloudJob
