import CloudJob.Lib.Alike
import CloudJob.Safety.RateLimit
import CloudJob.Text

/-!
# `Safety/RedisOutage.lean` — what fails in Redis fails nowhere else

Redis holds the counters of the rate limiter, the cached lists and the channels of the streams, and
every call to it is guarded: a limiter that cannot count lets the request pass, and what cannot be
invalidated or published is logged and forgotten. So the database, the broker and the callers see
the same, whichever of these calls raise, except for a request that is refused because it was
counted.

`Outage` runs one operation after another, each to its end: the calls to Redis raise where `raises`
says so, and everything else goes the way the turns say. -/

set_option autoImplicit false

namespace CloudJob

open Lib

/-! ## The programs -/

/-- A call to Redis, by way of the limiter, the cache or the channel. -/
def Op.isRedis : Op → Bool
  | .reserve _ | .releaseReservation _ | .redisInvalidate _ | .redisPublish _ => true
  | _ => false

/-- A reservation that is not refused, and a release, return. -/
def Admitted (o : Op) (r : Except Exc o.Ret) : Prop :=
  match o, r with
  | .reserve _, .error _ | .releaseReservation _, .error _ => False
  | _, _ => True

/-- The two programs differ in calls to Redis only. -/
abbrev AlikeButRedis {α : Type} (m m' : Code α) : Prop :=
  Prog.Alike (S := sig) (fun o => o.isRedis = true) Admitted m m'

/-- The program calls Redis, and returns `a` in any case. -/
abbrev HidesRedis {α : Type} (a : α) (m : Code α) : Prop :=
  Prog.Hides (S := sig) (fun o => o.isRedis = true) Admitted a m

/-- The program goes on as it would have, whichever of its calls to Redis raise. -/
abbrev Unmoved {α : Type} (m : Code α) : Prop := AlikeButRedis m m

section Programs

variable {α β : Type} {m m' : Code α}

/-- A program that only calls Redis. -/
theorem unmoved_of_hides {a : α} (h : HidesRedis a m) : Unmoved m := Prog.Alike.of_hides h h

theorem unmoved_withUow (h : Unmoved m) : Unmoved (withUow m) := by
  refine .bind (.perform nofun) fun _ => .bind h.attempt fun r => ?_
  cases r with
  | ok a => exact .bind (.perform nofun) fun _ => .ret a
  | error e => exact .bind (.perform nofun) fun _ => .raise e

theorem hidesRedis_notify (n : JobPostCommitNotification) :
    HidesRedis () (Prog.tryCatch (notifyJobStateChanged n) fun _ => .ret ()) := by
  refine .suppress ((notes_notifyJobStateChanged n).mono fun o ho => ?_)
  obtain ⟨owner, rfl⟩ | ⟨ev, rfl⟩ := ho
  · rfl
  · rfl

theorem hidesRedis_invalidateOwner (owner : Uuid) : HidesRedis () (invalidateOwner owner) :=
  .suppress (.perform rfl)

theorem createSystemLog_unmoved (j : Uuid) (level message : String) :
    Unmoved (JobLogs.createSystemLog j level message) :=
  .bind (.perform nofun) fun _ => .bind (.perform nofun) fun _ => .ret _

theorem createDispatchEvent_unmoved (j : Uuid) (at' : Datetime) :
    Unmoved (Outbox.createDispatchEvent j at') :=
  .bind (.perform nofun) fun _ => .bind (.perform nofun) fun _ =>
    .bind (.perform nofun) fun _ => .ret _

theorem createDispatchEventIfAbsent_unmoved (j : Uuid) (at' : Datetime) :
    Unmoved (Outbox.createDispatchEventIfAbsent j at') := by
  refine .bind (.perform nofun) fun existing => ?_
  cases existing with
  | some e => exact .ret _
  | none => exact .bind (createDispatchEvent_unmoved j at') fun _ => .ret _

/-- How every statement on a job row goes on. -/
theorem update_unmoved {j : Uuid} {st : JobStmt} (hm : Unmoved m) (hm' : Unmoved m') :
    Unmoved ((Jobs.update j st).bind fun done => if done then m else m') :=
  .bind (.perform nofun) fun _ => hm.ite hm'

end Programs

namespace JobService

theorem notifyPostCommit_unmoved (job : JobPublicDTO) : Unmoved (notifyPostCommit job) :=
  unmoved_of_hides (hidesRedis_notify _)

theorem hidesRedis_releaseReservation (r : Option CreateJobRateLimitReservationDTO) :
    HidesRedis () (releaseReservation r) := by
  cases r with
  | none => rfl
  | some r =>
    refine ⟨rfl, fun a ha => ?_⟩
    cases a with
    | ok done => rfl
    | error e => exact ha.elim

theorem validateExistingJob_unmoved (job : StoredJobDTO) (hash : String) :
    Unmoved (validateExistingJob job hash) := .ite (.raise _) (.ret _)

theorem loadExistingJob_unmoved (owner : Uuid) (key hash : String) :
    Unmoved (loadExistingJob owner key hash) := by
  refine unmoved_withUow (.bind (.bind (.perform nofun) fun _ => .ret _) fun existing => ?_)
  cases existing with
  | none => exact .raise _
  | some job => exact validateExistingJob_unmoved _ _

theorem insertJob_unmoved (settings : Settings) (user : CurrentUserDTO) (key : String)
    (type : JobType)
    (payload : Json) (hash : String) : Unmoved (insertJob settings user key type payload hash) := by
  refine .bind (.bind (.perform nofun) fun _ => .bind (.perform nofun) fun _ =>
    .bind (.perform nofun)
    fun _ => ?_) fun _ => .bind (createSystemLog_unmoved _ _ _) fun _ =>
    .bind (.perform nofun) fun _ =>
    .bind (createDispatchEvent_unmoved _ _) fun _ => .bind (.perform nofun) fun _ => .ret _
  refine .bind (.of_asks (.tryCatch (.perform nofun) fun e => ?_)) fun _ => .ret _
  cases e with
  | integrity orig => exact .ite trivial trivial
  | _ => trivial

/-- What follows the reservation does not depend on it but to release it. -/
theorem createJob_unmoved (sha256 : String → String) (settings : Settings) (user : CurrentUserDTO)
    (key : String) (type : JobType) (payload : Json) :
    Unmoved (createJob sha256 settings user key type payload) := by
  have hend : ∀ (r r' : Option CreateJobRateLimitReservationDTO)
    (m : Code (Option JobCreateResultDTO)),
      Unmoved m → AlikeButRedis ((releaseReservation r).bind fun _ => m)
        ((releaseReservation r').bind fun _ => m) := fun r r' m hm =>
    .bind (.of_hides (hidesRedis_releaseReservation r') (hidesRedis_releaseReservation r)) fun _ =>
      hm
  refine .bind (unmoved_withUow (.bind (.bind (.perform nofun) fun _ => .ret _) fun existing => ?_))
    fun result => ?_
  · cases existing with
    | some job => exact .bind (validateExistingJob_unmoved _ _) fun _ => .ret _
    | none =>
      refine .bind_hidden rfl (fun _ => id) fun r r' =>
        .bind (insertJob_unmoved _ _ _ _ _ _).attempt
        fun outcome => ?_
      cases outcome with
      | ok job =>
        refine .bind (unmoved_of_hides (hidesRedis_invalidateOwner _)) fun _ => ?_
        exact .bind (notifyPostCommit_unmoved _) fun _ => .ret _
      | error e =>
        cases e with
        | duplicateJobIdempotencyKey => exact hend r r' _ (.bind (.perform nofun) fun _ => .ret _)
        | _ => exact hend r r' _ (.raise _)
  · cases result with
    | some result => exact .ret _
    | none => exact .bind (loadExistingJob_unmoved _ _ _) fun _ => .ret _

theorem finishCancel_unmoved (job : StoredJobDTO) (message : String) :
    Unmoved (finishCancel job message) := by
  refine .bind (createSystemLog_unmoved _ _ _) fun _ => .bind (.perform nofun) fun _ =>
    .bind (unmoved_of_hides (hidesRedis_invalidateOwner _)) fun _ => .bind ?_ fun _ =>
    .bind (notifyPostCommit_unmoved _) fun _ => .ret _
  refine unmoved_withUow (.bind (.bind (.perform nofun) fun _ => .ret _) fun job => ?_)
  cases job with
  | none => exact .raise _
  | some job => exact .ret _

theorem loadAuthorizedJobForUpdate_unmoved (user : CurrentUserDTO) (j : Uuid) :
    Unmoved (loadAuthorizedJobForUpdate user j) := by
  unfold loadAuthorizedJobForUpdate
  split
  · refine .bind (.bind (.perform nofun) fun _ => .ret _) fun job => ?_
    cases job with
    | none => exact .raise _
    | some job => exact .ret _
  · refine .bind (.bind (.perform nofun) fun _ => .ret _) fun job => ?_
    cases job with
    | none => exact .raise _
    | some job => exact .ret _

theorem cancelJob_unmoved (user : CurrentUserDTO) (j : Uuid) : Unmoved (cancelJob user j) :=
  .bind (.perform nofun) fun _ => unmoved_withUow (.bind (loadAuthorizedJobForUpdate_unmoved user j)
      fun _ =>
    .ite (update_unmoved (finishCancel_unmoved _ _) (.ret _))
      (.ite (update_unmoved (finishCancel_unmoved _ _) (.ret _)) (.ite (.raise _) (.ret _))))

end JobService

namespace JobWorker

theorem notifyPostCommit_unmoved (j owner : Uuid) (status : JobStatus) (n : Nat) (t : Datetime) :
    Unmoved (notifyPostCommit j owner status n t) := unmoved_of_hides (hidesRedis_notify _)

theorem report_unmoved (j owner : Uuid) (level message : String) (status : JobStatus) (n : Nat)
    (t : Datetime) : Unmoved ((JobLogs.createSystemLog j level message).bind fun _ =>
      commit.bind fun _ =>
      notifyPostCommit j owner status n t) :=
  .bind (createSystemLog_unmoved _ _ _) fun _ => .bind (.perform nofun) fun _ =>
    notifyPostCommit_unmoved _ _ _ _ _

theorem decideClaim_unmoved (w : JobWorker) (owner : Uuid) (job : JobExecutionDTO) (token : Uuid)
    (now : Datetime) : Unmoved (decideClaim w owner job token now) := by
  refine .ite (.ret _) (.ite (.ret _) (.ite (.ret _)
    (.ite ?_ (.bind (.perform nofun) fun n => .ite ?_ ?_))))
  · exact .bind (update_unmoved (report_unmoved _ _ _ _ _ _ _) (.ret _)) fun _ => .ret _
  · refine .bind (.bind (createDispatchEventIfAbsent_unmoved _ _) fun ev => .bind ?_ fun _ =>
      .bind (.perform nofun) fun _ => notifyPostCommit_unmoved _ _ _ _ _) fun _ => .ret _
    cases ev with
    | none => exact .ret _
    | some ev => exact createSystemLog_unmoved _ _ _
  · exact update_unmoved (.bind (createSystemLog_unmoved _ _ _) fun _ =>
        .bind (.perform nofun) fun _ =>
      .bind (notifyPostCommit_unmoved _ _ _ _ _) fun _ => .ret _) (.ret _)

theorem claimExecution_unmoved (w : JobWorker) (m : DispatchOutboxMessage) :
    Unmoved (claimExecution w m) := by
  refine .bind (.perform nofun) fun now => .bind (.perform nofun) fun token =>
    unmoved_withUow (.bind (.bind (.perform nofun) fun _ => .ret _) fun owner => ?_)
  cases owner with
  | none => exact .ret _
  | some owner =>
    refine .bind (.perform nofun) fun user => .ite (.ret _)
      (.bind (.bind (.perform nofun) fun _ => .ret _) fun job => ?_)
    cases job with
    | none => exact .ret _
    | some job => exact decideClaim_unmoved _ _ _ _ _

theorem isCancellationRequested_unmoved (claim : ExecutionClaim) :
    Unmoved (isCancellationRequested claim) := by
  refine unmoved_withUow (.bind (.bind (.perform nofun) fun _ => .ret _) fun job => ?_)
  cases job with
  | none => exact .ret _
  | some job => exact .ite (.ret _) (.ret _)

theorem runHandler_unmoved (claim : ExecutionClaim) :
    ∀ run : HandlerRun, Unmoved (runHandler claim run)
  | .done => .ret _
  | .raise _ => .raise _
  | .poll k => .bind (isCancellationRequested_unmoved claim).attempt fun r =>
      runHandler_unmoved claim (k r)

theorem executeHandler_unmoved (w : JobWorker) (claim : ExecutionClaim) :
    Unmoved (executeHandler w claim) := by
  unfold executeHandler
  split
  · exact .raise _
  · exact .bind (.perform nofun) fun _ => runHandler_unmoved _ _

theorem markCompleted_unmoved (claim : ExecutionClaim) : Unmoved (markCompleted claim) :=
  .bind (.perform nofun) fun _ => unmoved_withUow
    (update_unmoved (report_unmoved _ _ _ _ _ _ _) (.ret _))

theorem markCancelled_unmoved (claim : ExecutionClaim) : Unmoved (markCancelled claim) :=
  .bind (.perform nofun) fun _ => unmoved_withUow
    (update_unmoved (report_unmoved _ _ _ _ _ _ _) (.ret _))

theorem markFailed_unmoved (claim : ExecutionClaim) (error : String) :
    Unmoved (markFailed claim error) :=
  .bind (.perform nofun) fun _ => unmoved_withUow
    (update_unmoved (report_unmoved _ _ _ _ _ _ _) (.ret _))

theorem finalizeFailure_unmoved (claim : ExecutionClaim) (error : String) :
    Unmoved (finalizeFailure claim error) := by
  refine .ite (markFailed_unmoved claim error) (.bind (.perform nofun) fun now => .bind ?_ fun _ =>
    unmoved_withUow (update_unmoved (.bind (createDispatchEventIfAbsent_unmoved _ _) fun _ =>
      report_unmoved _ _ _ _ _ _ _) (.ret _)))
  unfold retryBackoffSeconds
  split
  · exact .ret _
  · exact .raise _

theorem executeClaim_unmoved (w : JobWorker) (claim : ExecutionClaim) :
    Unmoved (executeClaim w claim) := by
  refine .bind (executeHandler_unmoved w claim).attempt fun outcome => ?_
  cases outcome with
  | ok a => exact markCompleted_unmoved _
  | error e => cases e with
    | jobCancellationRequested text => exact markCancelled_unmoved _
    | missingJobHandler text => exact markFailed_unmoved _ _
    | _ => exact finalizeFailure_unmoved _ _

theorem handleMessage_unmoved (w : JobWorker) (m : Message) : Unmoved (handleMessage w m) := by
  unfold handleMessage
  split
  · exact .perform nofun
  · refine .bind (claimExecution_unmoved _ _) fun claim => ?_
    cases claim with
    | none => exact .perform nofun
    | some claim => exact .bind (executeClaim_unmoved w claim) fun _ => .perform nofun

end JobWorker

namespace StaleRunningRecovery

theorem recoverStaleJob_unmoved (job : JobExecutionDTO) (now : Datetime) :
    Unmoved (recoverStaleJob job now) := by
  unfold recoverStaleJob
  split
  · exact .ret _
  · refine .bind (.perform nofun) fun owner => .ite (.ret _) (.ite ?_ ?_)
    · exact update_unmoved (.bind (createSystemLog_unmoved _ _ _) fun _ => .ret _) (.ret _)
    · exact update_unmoved (.bind (createDispatchEventIfAbsent_unmoved _ _) fun _ =>
        .bind (createSystemLog_unmoved _ _ _) fun _ => .ret _) (.ret _)

theorem recoverAll_unmoved (now : Datetime) :
    ∀ jobs : List JobExecutionDTO, Unmoved (recoverAll now jobs)
  | [] => .ret _
  | job :: rest => .bind (recoverStaleJob_unmoved job now) fun _ =>
      .bind (recoverAll_unmoved now rest) fun _ => .ret _

theorem notifyAll_unmoved : ∀ ns : List JobPostCommitNotification, Unmoved (notifyAll ns)
  | [] => .ret _
  | n :: ns => .bind (unmoved_of_hides (hidesRedis_notify n)) fun _ => notifyAll_unmoved ns

theorem recoverDueBatchOnce_unmoved (settings : Settings) :
    Unmoved (recoverDueBatchOnce settings) := by
  refine .bind (.perform nofun) fun now => .bind (unmoved_withUow
    (.bind (.bind (.perform nofun) fun _ => .ret _) fun jobs => .bind (recoverAll_unmoved now jobs)
      fun ns => .bind ?_ fun _ => .ret _))
    fun ns => .bind (notifyAll_unmoved ns) fun _ => .ret _
  cases ns with
  | nil => exact .ret _
  | cons n ns => exact .perform nofun

end StaleRunningRecovery

namespace OutboxPublisher

theorem markPublished_unmoved (e : Uuid) (now : Datetime) :
    Unmoved ((Outbox.markPublished e now).bind fun _ => commit.bind fun _ => .ret true) :=
  .bind (.bind (.perform nofun) fun _ => .ret _) fun _ => .bind (.perform nofun) fun _ => .ret _

theorem discard_unmoved (ev : OutboxEvent) (status : JobStatus) :
    Unmoved ((discardNonDispatchableEvent ev status).bind fun _ => commit.bind fun _ =>
      .ret true) := by
  refine .bind (.bind (createSystemLog_unmoved _ _ _) fun _ => .bind (.perform nofun) fun _ => ?_)
    fun _ => .bind (.perform nofun) fun _ => .ret _
  exact .bind (.perform nofun) fun _ => .ret _

theorem stageAndPublish_unmoved (ev : OutboxEvent) (job : StoredJobDTO) :
    Unmoved (stageAndPublish ev job) :=
  .bind (.of_asks (.ofExcept _)) fun _ => .ite
    (.bind (.perform nofun) fun _ => .bind (.perform nofun) fun _ =>
      .ite (.bind (.perform nofun) fun _ => .ret _) (discard_unmoved ev job.status))
    (.bind (.perform nofun) fun _ => .ret _)

theorem recordFailure_unmoved (ev : OutboxEvent) (error : String) :
    Unmoved (recordFailureAfterRollback ev error) :=
  .bind (.perform nofun) fun _ => .bind (.perform nofun) fun _ => unmoved_withUow
    (.bind (.bind (.perform nofun) fun _ => .bind (.perform nofun) fun _ => .ret _) fun _ =>
      .perform nofun)

theorem processLocked_unmoved (ev : OutboxEvent) (job : StoredJobDTO) :
    Unmoved (processLocked ev job) := by
  refine .ite (.bind (stageAndPublish_unmoved ev job).attempt fun outcome => ?_)
    (discard_unmoved ev job.status)
  cases outcome with
  | error e => exact .bind (recordFailure_unmoved ev _) fun _ => .ret _
  | ok returned => cases returned with
    | true => exact .ret _
    | false => exact .bind (.perform nofun) fun _ => markPublished_unmoved _ _

theorem processClaimedEventOnce_unmoved (e : Uuid) : Unmoved (processClaimedEventOnce e) := by
  refine unmoved_withUow (.bind (.perform nofun) fun found => ?_)
  cases found with
  | none => exact .ret _
  | some ev =>
    refine .bind (.bind (.perform nofun) fun _ => .ret _) fun job => ?_
    cases job with
    | none => exact .bind (.perform nofun) fun _ => markPublished_unmoved _ _
    | some job => exact processLocked_unmoved ev job

theorem processAll_unmoved : ∀ ids : List Uuid, Unmoved (processAll ids)
  | [] => .ret _
  | e :: rest => .bind (processClaimedEventOnce_unmoved e) fun _ =>
      .bind (processAll_unmoved rest) fun _ => .ret _

theorem publishDueBatchOnce_unmoved (settings : Settings) :
    Unmoved (publishDueBatchOnce settings) :=
  .bind (.perform nofun) fun _ => .bind (unmoved_withUow (.bind (.perform nofun) fun _ => .ret _))
    fun _ => processAll_unmoved _

end OutboxPublisher

/-- Every operation goes on whatever Redis does, as long as it is not refused. -/
theorem Call.prog_unmoved (P : Params) (c : Call) : Unmoved (c.prog P) := by
  cases c with
  | createJob settings user key type payload =>
    exact .bind (JobService.createJob_unmoved _ _ _ _ _ _) fun _ => .ret _
  | cancelJob user j => exact .bind (JobService.cancelJob_unmoved user j) fun _ => .ret _
  | publishDueBatchOnce settings =>
    exact .bind (OutboxPublisher.publishDueBatchOnce_unmoved settings) fun _ => .ret _
  | handleMessage settings workerId m =>
    exact .bind (JobWorker.handleMessage_unmoved _ m) fun _ => .ret _
  | recoverDueBatchOnce settings =>
    exact .bind (StaleRunningRecovery.recoverDueBatchOnce_unmoved settings) fun _ => .ret _

/-! ## The runs -/

/-- How a call to Redis goes; what has been done may still not be answered. -/
inductive RedisFate where
  | answers
  | raises (text : String)
  | raisesAfter (text : String)

/-- A call to Redis: what the limiter's clock reads before it, how long it takes, and how it
goes. -/
structure RedisTurn where
  reading : Datetime
  elapsed : Nat
  fate : RedisFate

/-- A script that goes this way. -/
def RedisFate.answer (fate : RedisFate) (now clock : Datetime) :
    (o : LimiterOp) → Counters → Except LimiterExc o.Ret × Counters
  | .now, counters => limiterAnswer now clock .now counters
  | .eval script, counters =>
      match fate with
      | .answers => limiterAnswer now clock (.eval script) counters
      | .raises text => (.error (.redis text), counters)
      | .raisesAfter text => (.error (.redis text),
          (limiterAnswer now clock (.eval script) counters).2)

/-- The system, the turns it has taken, and what is asked about it: whether a request was refused,
and which messages have been acknowledged. -/
structure Outage where
  limited : Limited
  turn : Nat
  redisTurn : Nat
  refused : Bool
  acked : List Nat

def Limited.tick (s : Limited) (d : Nat) : Limited :=
  { s with shared := s.shared.tick d }

/-- `RateLimitExceededError`. -/
def isRefusal {α : Type} : Except LimiterExc α → Bool
  | .error (.rateLimitExceeded _ _ _) => true
  | _ => false

namespace Outage

/-- A call to Redis that has nothing to answer but that it is done. -/
def tell (redis : Nat → RedisTurn) (p : Pid) (ev : Event) (x : Outage) : Except Exc Unit × Outage :=
  let turn := redis x.redisTurn
  let s := x.limited.tick turn.elapsed
  let done : Limited := { s with shared := { s.shared with core := s.shared.core.record p [ev] } }
  match turn.fate with
  | .answers => (.ok (), { x with limited := done, redisTurn := x.redisTurn + 1 })
  | .raises text => (.error (.redis text), { x with limited := s, redisTurn := x.redisTurn + 1 })
  | .raisesAfter text => (.error (.redis text),
      { x with limited := done, redisTurn := x.redisTurn + 1 })

/-- One call of process `p`. Those to Redis go as `redis` says, all others as `turns` says, each
after some time. -/
def answer (P : Params) (L : RedisCreateJobRateLimiter) (turns : Nat → Nat × Choice)
    (redis : Nat → RedisTurn) (p : Pid) (o : Op) (x : Outage) :
    Option (Except Exc o.Ret × Outage) :=
  match o with
  | .reserve userId =>
      let turn := redis x.redisTurn
      let s := x.limited.tick turn.elapsed
      if 0 ≤ turn.reading ∧ turn.reading ≤ s.shared.core.clock ∧
          s.shared.core.clock < turn.reading + seconds KEY_EXPIRY_MARGIN_SECONDS then
        let result := (L.reserve userId).eval (turn.fate.answer turn.reading s.shared.core.clock)
          s.counters
        some (result.1.mapError LimiterExc.toExc,
          { x with
            limited := ⟨s.shared, result.2⟩
            redisTurn := x.redisTurn + 1
            refused := x.refused || isRefusal result.1 })
      else none
  | .releaseReservation reservation =>
      let turn := redis x.redisTurn
      let s := x.limited.tick turn.elapsed
      let result := (RedisCreateJobRateLimiter.release reservation).eval
        (turn.fate.answer s.shared.core.clock s.shared.core.clock) s.counters
      some (result.1.mapError LimiterExc.toExc,
        { x with limited := ⟨s.shared, result.2⟩, redisTurn := x.redisTurn + 1 })
  | .redisInvalidate ownerId => some (x.tell redis p (.invalidated ownerId))
  | .redisPublish ev => some (x.tell redis p (.announced ev))
  | o =>
      let turn := turns x.turn
      let s := x.limited.tick turn.1
      (s.shared.exec P.reads p o turn.2).map fun y =>
        (y.1, { x with
          limited := ⟨y.2, s.counters⟩
          turn := x.turn + 1
          acked := acknowledges o y.1 ++ x.acked })

end Outage

/-- What happens next: a process runs to its end, or the environment acts. -/
inductive Request where
  | call (p : Pid) (c : Call)
  | act (e : EnvAct)

/-- What can be seen once a process has ended. -/
structure Served where
  result : Except Exc Outcome
  jobs : Db
  broker : List Message
  acked : List Nat

def Outage.served (result : Except Exc Outcome) (x : Outage) : Served :=
  ⟨result, x.limited.shared.core.db, x.limited.shared.core.broker, x.acked⟩

/-- One request after the other. -/
def Outage.serve (P : Params) (L : RedisCreateJobRateLimiter) (turns : Nat → Nat × Choice)
    (redis : Nat → RedisTurn) : List Request → Outage → Option (List Served × Outage)
  | [], x => some ([], x)
  | .act e :: rest, x =>
      match x.limited.shared.env e with
      | some s => serve P L turns redis rest { x with limited := ⟨s, x.limited.counters⟩ }
      | none => none
  | .call p c :: rest, x =>
      match x.limited.shared.start P p c with
      | none => none
      | some s =>
          match (c.prog P).drive (answer P L turns redis p)
              { x with limited := ⟨s, x.limited.counters⟩ } with
          | none => none
          | some (result, y) => (serve P L turns redis rest y).map fun z =>
              (y.served result :: z.1, z.2)

/-! ## Two runs -/

/-- The state but for the time, and for what it recorded. -/
def Shared.source (s : Shared) : Shared := { s with core :=
    { s.core with history := [], clock := 0 } }

/-- The states differ in what Redis holds, in the time, and in how often Redis was called. -/
structure SameSource (x x' : Outage) : Prop where
  shared : x.limited.shared.source = x'.limited.shared.source
  turn : x.turn = x'.turn
  acked : x.acked = x'.acked

section Source

variable {s t : Shared} {p : Pid} {o : Op}

theorem source_spend (s : Shared) (p : Pid) : (s.spend p).source = s.source.spend p := by
  have hhandling : s.source.handling p = s.handling p := rfl
  unfold Shared.spend
  rw [hhandling]
  split <;> rfl

theorem answer_source : (s.source.answer p o).map (fun y => (y.1, y.2.source)) =
    (s.answer p o).map (fun y => (y.1, y.2.source)) := by
  have hview : s.source.view p = s.view p := rfl
  have hfree : s.source.free p = s.free p := rfl
  cases o with
  | selectJobForUpdate id owner =>
    simp only [Shared.answer, hview, hfree]
    split
    · rfl
    · split <;> rfl
  | lockUser id =>
    simp only [Shared.answer, hview, hfree]
    split
    · split <;> rfl
    · rfl
  | lockUnpublishedEvent id =>
    simp only [Shared.answer, hview, hfree]
    split
    · rfl
    · split <;> rfl
  | write st =>
    simp only [Shared.answer, hview, hfree]
    split
    · rfl
    · rfl
    · split <;> rfl
  | commit =>
    simp only [Shared.answer, Option.map_some, source_spend]
    rfl
  | aexit raised =>
    simp only [Shared.answer, Option.map_some]
    cases raised with
    | true => rfl
    | false =>
      simp only [Bool.false_eq_true, if_false, source_spend]
      rfl
  | _ => rfl

/-- A call goes on from the source alone. -/
theorem exec_source {reads : Datetime → Datetime → Bool} {c : Choice} {r : Except Exc o.Ret}
    (h : s.exec reads p o c = some (r, t)) :
    (s.source.exec (fun _ _ => true) p o c).map (fun y => (y.1, y.2.source)) = some
    (r, t.source) := by
  cases c with
  | answer => exact answer_source.trans (congrArg (Option.map fun y => (y.1, y.2.source)) h)
  | fails text =>
    simp only [Shared.exec, Option.map_eq_some_iff, Prod.mk.injEq] at h ⊢
    obtain ⟨e, he, rfl, rfl⟩ := h
    refine ⟨_, ⟨e, he, rfl⟩, rfl, ?_⟩
    cases o <;> rfl
  | failsAfter text => cases o with
    | commit =>
      cases h
      rfl
    | publishDispatch message =>
      cases h
      rfl
    | _ => cases h
  | time now => cases o with
    | now =>
      simp only [Shared.exec] at h
      split at h
      · cases h
        rfl
      · cases h
    | _ => cases h
  | uuid u => cases o with
    | uuid4 =>
      simp only [Shared.exec] at h ⊢
      split at h
      · rename_i hu
        cases h
        rw [if_pos (show s.source.uuidOwner u = none from hu)]
        rfl
      · cases h
    | _ => cases h
  | reservation res => cases o with
    | reserve userId =>
      cases h
      rfl
    | _ => cases h

end Source

theorem RedisFate.answer_answers (now clock : Datetime) :
    RedisFate.answer .answers now clock = limiterAnswer now clock := by
  funext o counters
  cases o <;> rfl

/-- `reserve` raises nothing but a refusal. -/
theorem reserve_refusal {L : RedisCreateJobRateLimiter} {userId : Uuid} {fate : RedisFate}
    {now clock : Datetime} {counters : Counters}
    (h : isRefusal ((L.reserve userId).eval (fate.answer now clock) counters).1 = false) :
    ∃ r, ((L.reserve userId).eval (fate.answer now clock) counters).1 = .ok r := by
  cases fate with
  | answers =>
    rw [RedisFate.answer_answers, RedisCreateJobRateLimiter.reserve_eval] at h ⊢
    split at h
    · cases h
    · rename_i hfits
      rw [if_neg hfits]
      exact ⟨_, rfl⟩
  | raises text => exact ⟨none, rfl⟩
  | raisesAfter text => exact ⟨none, rfl⟩

/-- `release` raises nothing. -/
theorem release_returns (reservation : CreateJobRateLimitReservationDTO) (fate : RedisFate)
    (now clock : Datetime) (counters : Counters) :
    ((RedisCreateJobRateLimiter.release reservation).eval (fate.answer now clock) counters).1 = .ok
    () := by
  cases fate <;> rfl

namespace Outage

variable {P : Params} {L : RedisCreateJobRateLimiter} {turns : Nat → Nat × Choice}
  {redis : Nat → RedisTurn}
  {p : Pid} {o : Op} {x y : Outage} {r : Except Exc o.Ret}

theorem tell_source (redis : Nat → RedisTurn) (p : Pid) (ev : Event) (x : Outage) :
    SameSource (x.tell redis p ev).2 x ∧ (x.tell redis p ev).2.refused = x.refused := by
  unfold tell
  dsimp only
  split
  · exact ⟨⟨rfl, rfl, rfl⟩, rfl⟩
  · exact ⟨⟨rfl, rfl, rfl⟩, rfl⟩
  · exact ⟨⟨rfl, rfl, rfl⟩, rfl⟩

/-- A call to Redis leaves the source of truth alone, and returns unless it refuses. -/
theorem answer_redis (ho : o.isRedis = true) (h : answer P L turns redis p o x = some (r, y)) :
    SameSource y x ∧ (y.refused = false → x.refused = false ∧ Admitted o r) := by
  cases o with
  | reserve userId =>
    unfold answer at h
    dsimp only at h
    split at h
    · cases h
      refine ⟨⟨rfl, rfl, rfl⟩, fun hy => ?_⟩
      obtain ⟨hx, hfits⟩ := Bool.or_eq_false_iff.mp hy
      obtain ⟨res, hres⟩ := reserve_refusal hfits
      rw [hres]
      exact ⟨hx, trivial⟩
    · cases h
  | releaseReservation reservation =>
    cases h
    refine ⟨⟨rfl, rfl, rfl⟩, fun hy => ⟨hy, ?_⟩⟩
    rw [release_returns]
    trivial
  | redisInvalidate owner =>
    obtain rfl : (x.tell redis p (.invalidated owner)).2 = y :=
      congrArg Prod.snd (Option.some.inj h)
    obtain ⟨hsource, hrefused⟩ := tell_source redis p (.invalidated owner) x
    exact ⟨hsource, fun hy => ⟨hrefused ▸ hy, trivial⟩⟩
  | redisPublish ev =>
    obtain rfl : (x.tell redis p (.announced ev)).2 = y := congrArg Prod.snd (Option.some.inj h)
    obtain ⟨hsource, hrefused⟩ := tell_source redis p (.announced ev) x
    exact ⟨hsource, fun hy => ⟨hrefused ▸ hy, trivial⟩⟩
  | _ => cases ho

/-- Every other call takes its turn. -/
theorem answer_other (ho : o.isRedis = false) (h : answer P L turns redis p o x = some (r, y)) :
    ∃ t, (x.limited.tick (turns x.turn).1).shared.exec P.reads p o (turns x.turn).2 = some (r, t) ∧
      y = { x with
        limited := ⟨t, x.limited.counters⟩
        turn := x.turn + 1
        acked := acknowledges o r ++ x.acked } := by
  have h' : ((x.limited.tick (turns x.turn).1).shared.exec P.reads p o (turns x.turn).2).map
      (fun y =>
      (y.1, { x with
        limited := ⟨y.2, x.limited.counters⟩
        turn := x.turn + 1
        acked := acknowledges o y.1 ++ x.acked })) = some (r, y) := by
    cases o <;> first | exact h | cases ho
  obtain ⟨⟨r', t⟩, ht, heq⟩ := Option.map_eq_some_iff.mp h'
  cases heq
  exact ⟨t, ht, rfl⟩

end Outage

theorem SameSource.symm {x y : Outage} (h : SameSource x y) : SameSource y x :=
  ⟨h.shared.symm, h.turn.symm, h.acked.symm⟩

theorem SameSource.trans {x y z : Outage} (h : SameSource x y) (h' : SameSource y z) :
    SameSource x z :=
  ⟨h.shared.trans h'.shared, h.turn.trans h'.turn, h.acked.trans h'.acked⟩

section TwoRuns

variable {P : Params} {L : RedisCreateJobRateLimiter} {turns : Nat → Nat × Choice}
  {redis redis' : Nat → RedisTurn}
  {p : Pid} {x x' y y' : Outage}

/-- What is seen of a state is its source of truth. -/
theorem SameSource.served (h : SameSource x x') (r : Except Exc Outcome) :
    x.served r = x'.served r := by
  have hdb := congrArg (fun s : Shared => s.core.db) h.shared
  have hbroker := congrArg (fun s : Shared => s.core.broker) h.shared
  simp only [Outage.served, Served.mk.injEq, true_and]
  exact ⟨hdb, hbroker, h.acked⟩

/-- No run takes a refusal back. -/
theorem Outage.unrefused {o : Op} {r : Except Exc o.Ret}
    (h : answer P L turns redis p o x = some (r, y))
    (hy : y.refused = false) : x.refused = false := by
  cases ho : o.isRedis with
  | true => exact ((answer_redis ho h).2 hy).1
  | false =>
    obtain ⟨t, -, rfl⟩ := answer_other ho h
    exact hy

/-- A call that is not to Redis is answered from the source of truth. -/
theorem Outage.answer_alike {o : Op} {r r' : Except Exc o.Ret} (ho : o.isRedis = false)
    (hsame : SameSource x x') (h : answer P L turns redis p o x = some (r, y))
    (h' : answer P L turns redis' p o x' = some (r', y')) : r = r' ∧ SameSource y y' := by
  obtain ⟨t, ht, rfl⟩ := answer_other ho h
  obtain ⟨t', ht', rfl⟩ := answer_other ho h'
  have hexec := exec_source ht
  have hexec' := exec_source ht'
  have hsource : (x.limited.tick (turns x.turn).1).shared.source =
    (x'.limited.tick (turns x'.turn).1).shared.source := hsame.shared
  rw [hsource, hsame.turn, hexec'] at hexec
  obtain ⟨rfl, hts⟩ := Prod.mk.inj (Option.some.inj hexec)
  exact ⟨rfl, hts.symm, congrArg (· + 1) hsame.turn, congrArg (acknowledges o _ ++ ·) hsame.acked⟩

/-- One operation. -/
theorem Outage.drive_alike {c : Call} {r r' : Except Exc Outcome} (hsame : SameSource x x')
    (h : (c.prog P).drive (answer P L turns redis p) x = some (r, y))
    (h' : (c.prog P).drive (answer P L turns redis' p) x' = some (r', y'))
    (hy : y.refused = false) (hy' : y'.refused = false) : r = r' ∧ SameSource y y' := by
  refine Prog.Alike.drive (I := SameSource) unrefused unrefused ?_ ?_ ?_ (c.prog_unmoved P)
    hsame h h' hy hy'
  · intro o x x' r r' y y' ho hsame h h'
    exact answer_alike (Bool.eq_false_iff.mpr ho) hsame h h'
  · intro o x x' r y ho hsame h hy
    obtain ⟨hleft, hmay⟩ := answer_redis ho h
    exact ⟨(hmay hy).2, hleft.trans hsame⟩
  · intro o x x' r y ho hsame h hy
    obtain ⟨hleft, hmay⟩ := answer_redis ho h
    exact ⟨(hmay hy).2, hsame.trans hleft.symm⟩

theorem Shared.env_source {e : EnvAct} {s s' t t' : Shared} (hsame : s.source = s'.source)
    (h : s.env e = some t) (h' : s'.env e = some t') : t.source = t'.source := by
  have henv : ∀ s : Shared, (s.source.env e).map source = (s.env e).map source := fun s => by
    cases e with
    | duplicate m =>
      simp only [Shared.env, Core.env]
      by_cases hm : m ∈ s.core.broker
      · rw [if_pos hm, if_pos (show m ∈ s.source.core.broker from hm)]
        rfl
      · rw [if_neg hm, if_neg (show m ∉ s.source.core.broker from hm)]
        rfl
    | _ => rfl
  have ht := henv s
  rw [hsame, henv s', h, h'] at ht
  exact (Option.some.inj ht).symm

theorem Shared.start_source {c : Call} {s s' t t' : Shared} (hsame : s.source = s'.source)
    (h : s.start P p c = some t) (h' : s'.start P p c = some t') : t.source = t'.source := by
  have hstart : ∀ s : Shared, (s.source.start P p c).map source = (s.start P p c).map source :=
      fun s => by
    have hadmissible : c.admissible P s.source.core = c.admissible P s.core := by cases c <;> rfl
    unfold Shared.start
    rw [hadmissible]
    split <;> rfl
  have ht := hstart s
  rw [hsame, hstart s', h, h'] at ht
  exact (Option.some.inj ht).symm

theorem Outage.serve_act {e : EnvAct} {rest : List Request} {outs : List Served}
    (h : serve P L turns redis (.act e :: rest) x = some (outs, y)) :
    ∃ s, x.limited.shared.env e = some s ∧
      serve P L turns redis rest { x with limited := ⟨s, x.limited.counters⟩ } = some
      (outs, y) := by
  simp only [serve] at h
  split at h
  · exact ⟨_, ‹_›, h⟩
  · cases h

theorem Outage.serve_call {c : Call} {rest : List Request} {outs : List Served}
    (h : serve P L turns redis (.call p c :: rest) x = some (outs, y)) :
    ∃ s r z outs', x.limited.shared.start P p c = some s ∧
      (c.prog P).drive (answer P L turns redis p) { x with limited := ⟨s, x.limited.counters⟩ } =
        some (r, z) ∧
      serve P L turns redis rest z = some (outs', y) ∧ outs = z.served r :: outs' := by
  simp only [serve] at h
  split at h
  · cases h
  · split at h
    · cases h
    · obtain ⟨⟨outs', y'⟩, hz, heq⟩ := Option.map_eq_some_iff.mp h
      cases heq
      exact ⟨_, _, _, outs', ‹_›, ‹_›, hz, rfl⟩

/-- A run that has refused nothing in the end has refused nothing. -/
theorem Outage.serve_refused {requests : List Request} : ∀ {x y : Outage} {outs : List Served},
    serve P L turns redis requests x = some (outs, y) → y.refused = false → x.refused = false := by
  induction requests with
  | nil =>
    intro x y outs h hy
    cases h
    exact hy
  | cons request rest ih =>
    intro x y outs h hy
    cases request with
    | act e =>
      obtain ⟨s, -, hrest⟩ := serve_act h
      have hact := ih hrest hy
      exact hact
    | call p c =>
      obtain ⟨s, r, z, outs', -, hd, hrest, -⟩ := serve_call h
      have hstart := Prog.drive_good unrefused hd (ih hrest hy)
      exact hstart

/-- **Redis failures do not change the source of truth**: two runs with the same requests, the same
turns and the same database at the start, in which the calls to Redis go as they like, and neither
of which refuses a request, show the same after every operation: the same result, the same jobs,
logs and events, the same unacknowledged messages, and the same ones acknowledged. -/
theorem redis_outage_invisible {requests : List Request} {outs outs' : List Served}
    (hsame : SameSource x x') (h : Outage.serve P L turns redis requests x = some (outs, y))
    (h' : Outage.serve P L turns redis' requests x' = some (outs', y'))
    (hy : y.refused = false) (hy' : y'.refused = false) : outs = outs' := by
  induction requests generalizing x x' outs outs' with
  | nil =>
    cases h
    cases h'
    rfl
  | cons request rest ih =>
    cases request with
    | act e =>
      obtain ⟨s, hs, hrest⟩ := Outage.serve_act h
      obtain ⟨s', hs', hrest'⟩ := Outage.serve_act h'
      have hact : SameSource { x with limited := ⟨s, x.limited.counters⟩ }
          { x' with limited := ⟨s', x'.limited.counters⟩ } :=
        ⟨Shared.env_source hsame.shared hs hs', hsame.turn, hsame.acked⟩
      exact ih hact hrest hrest'
    | call p c =>
      obtain ⟨s, r, z, outs, hs, hd, hrest, rfl⟩ := Outage.serve_call h
      obtain ⟨s', r', z', outs', hs', hd', hrest', rfl⟩ := Outage.serve_call h'
      have hstart : SameSource { x with limited := ⟨s, x.limited.counters⟩ }
          { x' with limited := ⟨s', x'.limited.counters⟩ } :=
        ⟨Shared.start_source hsame.shared hs hs', hsame.turn, hsame.acked⟩
      obtain ⟨rfl, hend⟩ := Outage.drive_alike hstart hd hd' (Outage.serve_refused hrest hy)
        (Outage.serve_refused hrest' hy')
      rw [ih hend hrest hrest', hend.served r]

end TwoRuns

/-- A job is created, published and completed, its owner tries to cancel it, and recovery finds
nothing. -/
def outageRequests : List Request :=
  [.act (.register 1), .call 0 (.createJob {} ⟨1, .user⟩ "k" .success (.obj [])),
    .call 1 (.publishDueBatchOnce {}), .call 2 (.handleMessage {} "w" ⟨0, .dispatch ⟨20, 10, 0⟩⟩),
    .call 3 (.cancelJob ⟨1, .user⟩ 10), .call 4 (.recoverDueBatchOnce {})]

def outageTurns (i : Nat) : Nat × Choice :=
  (0, if i ∈ [3, 4, 6, 8, 9, 14, 21, 24, 28, 36, 41, 44, 49, 53] then .time 0
    else if i = 2 then .uuid 10
    else if i = 10 then .uuid 20
    else if i = 29 then .uuid 30
    else .answer)

def outageStart : Outage := ⟨⟨Shared.init, fun _ => none⟩, 0, 0, false, []⟩

/-- A run in which Redis is well, and one in which it is down. -/
theorem redis_outage_invisible_down : ∃ outs outs' y y',
    Outage.serve .default sampleLimiter outageTurns (fun _ => ⟨0, 0, .answers⟩) outageRequests
      outageStart = some (outs, y) ∧
    Outage.serve .default sampleLimiter outageTurns (fun _ => ⟨0, 0, .raises "down"⟩) outageRequests
      outageStart = some (outs', y') ∧
    y.redisTurn = 8 ∧ outs.length = 5 ∧ outs = outs' := by
  have hwell : (Outage.serve .default sampleLimiter outageTurns (fun _ => ⟨0, 0, .answers⟩)
      outageRequests outageStart).map (fun z => (z.1.length, z.2.redisTurn, z.2.refused)) =
      some (5, 8, false) := by
    decide +kernel
  have hdown : (Outage.serve .default sampleLimiter outageTurns (fun _ => ⟨0, 0, .raises "down"⟩)
      outageRequests outageStart).map (fun z => z.2.refused) = some false := by
    decide +kernel
  obtain ⟨⟨outs, y⟩, hserve, hy⟩ := Option.map_eq_some_iff.mp hwell
  obtain ⟨⟨outs', y'⟩, hserve', hy'⟩ := Option.map_eq_some_iff.mp hdown
  simp only [Prod.mk.injEq] at hy
  exact ⟨outs, outs', y, y', hserve, hserve', hy.2.1, hy.1,
    redis_outage_invisible ⟨rfl, rfl, rfl⟩ hserve hserve' hy.2.2 hy'⟩

end CloudJob
