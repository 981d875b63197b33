import CloudJob.System

/-!
# `Callers.lean` — who makes which call

Some calls belong to one kind of process: only a publisher publishes and queues, only `create_job`
asks the rate limiter and inserts jobs. Both facts are read off the programs, call by call, whatever
the calls answer. -/

set_option autoImplicit false

namespace CloudJob

open Lib

/-- The calls that only a publisher makes. -/
def Op.isPublishers : Op → Bool
  | .write (.updateJob _ (.markQueued _)) => true
  | .lockDueEvents _ _ => true
  | .lockUnpublishedEvent _ => true
  | .publishDispatch _ => true
  | _ => false

/-- The calls that only `create_job` makes. -/
def Op.isCreators : Op → Bool
  | .write (.insertJob _) => true
  | .reserve _ => true
  | .releaseReservation _ => true
  | _ => false

/-- The calls of an execution: those a worker makes once its claim has ended, before it acks the
message. -/
def Op.isExecutions : Op → Bool
  | .write (.updateJob _ (.markQueued _)) => false
  | .write (.insertJob _) => false
  | .write _ => true
  | .now | .uuid4 | .aenter | .aexit _ | .commit => true
  | .selectJobForUpdate _ _ | .selectPendingDispatch _ => true
  | .startHandler _ _ | .redisInvalidate _ | .redisPublish _ => true
  | _ => false

/-- The program makes none of the calls of a publisher. -/
abbrev Abstains {α : Type} (m : Code α) : Prop :=
    Prog.Asks (S := sig) (fun o => Op.isPublishers o = false) m

/-- The program makes none of the calls of `create_job`. -/
abbrev CreatesNothing {α : Type} (m : Code α) : Prop :=
  Prog.Asks (S := sig) (fun o => Op.isCreators o = false) m

/-- The program makes calls of neither kind. -/
abbrev Common {α : Type} (m : Code α) : Prop :=
  Prog.Asks (S := sig) (fun o => (Op.isPublishers o || Op.isCreators o) = false) m

/-- The program makes calls of an execution only. -/
abbrev Executes {α : Type} (m : Code α) : Prop :=
    Prog.Asks (S := sig) (fun o => Op.isExecutions o = true) m

section Common

variable {α β : Type}

theorem Op.common_of_isExecutions {o : Op} (h : o.isExecutions = true) :
    (o.isPublishers || o.isCreators) = false := by
  cases o with
  | write st => cases st with
    | insertJob job => cases h
    | updateJob j st => cases st with
      | markQueued now => cases h
      | _ => rfl
    | _ => rfl
  | _ => first | rfl | cases h

theorem Executes.common {m : Code α} (h : Executes m) :
    Common m := h.mono fun _ => Op.common_of_isExecutions

theorem Common.abstains {m : Code α} (h : Common m) : Abstains m :=
  h.mono fun _ ho => (Bool.or_eq_false_iff.mp ho).1

theorem Common.createsNothing {m : Code α} (h : Common m) : CreatesNothing m :=
  h.mono fun _ ho => (Bool.or_eq_false_iff.mp ho).2

theorem asks_withUow {ok : Op → Prop} {body : Code α} (henter : ok .aenter)
    (hexit : ∀ raised, ok (.aexit raised)) (h : Prog.Asks (S := sig) ok body) :
    Prog.Asks (S := sig) ok (withUow body) := by
  refine .bind (.perform henter) fun _ => .bind h.attempt fun r => ?_
  cases r with
  | ok a => exact .bind (.perform (hexit false)) fun _ => trivial
  | error e => exact .bind (.perform (hexit true)) fun _ => trivial

theorem Common.withUow {body : Code α} (h : Common body) : Common (withUow body) :=
  asks_withUow rfl (fun _ => rfl) h

theorem Executes.withUow {body : Code α} (h : Executes body) : Executes (withUow body) :=
  asks_withUow rfl (fun _ => rfl) h

theorem Abstains.withUow {body : Code α} (h : Abstains body) : Abstains (withUow body) :=
  asks_withUow rfl (fun _ => rfl) h

theorem notifyJobStateChanged_executes (n : JobPostCommitNotification) :
    Executes (notifyJobStateChanged n) := by
  have hinvalidate : Executes (invalidateOwner n.ownerId) :=
    .tryCatch (.perform rfl) fun _ => trivial
  have hpublish : Executes (publishStatus n) := .perform rfl
  exact .bind (.tryCatch hinvalidate fun _ => trivial) fun _ => .tryCatch hpublish fun _ => trivial

theorem createSystemLog_executes (jobId : Uuid) (level message : String) :
    Executes (JobLogs.createSystemLog jobId level message) :=
  .bind (.perform rfl) fun _ => .bind (.perform rfl) fun _ => trivial

theorem createDispatchEvent_executes (jobId : Uuid) (at' : Datetime) :
    Executes (Outbox.createDispatchEvent jobId at') :=
  .bind (.perform rfl) fun _ => .bind (.perform rfl) fun _ => .bind (.perform rfl) fun _ => trivial

theorem createDispatchEventIfAbsent_executes (jobId : Uuid) (at' : Datetime) :
    Executes (Outbox.createDispatchEventIfAbsent jobId at') := by
  refine .bind (.perform rfl) fun existing => ?_
  cases existing with
  | some e => trivial
  | none => exact .bind (createDispatchEvent_executes jobId at') fun _ => trivial

/-- How every statement on a job row goes on: if it matched, a log, the commit and the
notification. -/
theorem guarded_executes {j : Uuid} {st : JobStmt} {m m' : Code α}
    (hst : Op.isExecutions (.write (.updateJob j st)) = true) (hm : Executes m)
    (hm' : Executes m') : Executes ((Jobs.update j st).bind fun done => if done then m else m') :=
  .bind (.perform hst) fun _ => hm.ite hm'

theorem guarded_common {j : Uuid} {st : JobStmt} {m m' : Code α}
    (hst : Op.isPublishers (.write (.updateJob j st)) = false) (hm : Common m) (hm' : Common m') :
    Common ((Jobs.update j st).bind fun done => if done then m else m') :=
  .bind (.perform (Bool.or_eq_false_iff.mpr ⟨hst, rfl⟩)) fun _ => hm.ite hm'

namespace JobService

theorem notifyPostCommit_common (job : JobPublicDTO) : Common (notifyPostCommit job) :=
  .tryCatch (notifyJobStateChanged_executes _).common fun _ => trivial

theorem releaseReservation_abstains (r : Option CreateJobRateLimitReservationDTO) :
    Abstains (releaseReservation r) := by
  cases r with
  | none => trivial
  | some r => exact .perform rfl

theorem validateExistingJob_common (job : StoredJobDTO) (hash : String) :
    Common (validateExistingJob job hash) := .ite trivial trivial

theorem loadExistingJob_common (owner : Uuid) (key hash : String) :
    Common (loadExistingJob owner key hash) := by
  refine Common.withUow (.bind (.bind (.perform rfl) fun _ => trivial) fun existing => ?_)
  cases existing with
  | some job => exact validateExistingJob_common _ _
  | none => trivial

theorem insertJob_abstains (settings : Settings) (user : CurrentUserDTO) (key : String)
    (type : JobType)
    (payload : Json) (hash : String) : Abstains
    (insertJob settings user key type payload hash) := by
  refine .bind ?_ fun _ => .bind (createSystemLog_executes _ _ _).common.abstains fun _ =>
      .bind (.perform rfl) fun _ =>
    .bind (createDispatchEvent_executes _ _).common.abstains fun _ =>
      .bind (.perform rfl) fun _ => trivial
  refine .bind (.perform rfl) fun _ => .bind (.perform rfl) fun _ => .bind (.perform rfl) fun _ =>
    .bind (.tryCatch (.perform rfl) fun e => ?_) fun _ => trivial
  cases e with
  | integrity orig => exact .ite trivial trivial
  | _ => trivial

theorem createJob_abstains (sha256 : String → String) (settings : Settings) (user : CurrentUserDTO)
    (key : String) (type : JobType) (payload : Json) :
    Abstains (createJob sha256 settings user key type payload) := by
  refine .bind (Abstains.withUow (.bind (.bind (.perform rfl) fun _ => trivial) fun existing => ?_))
    fun result => ?_
  · cases existing with
    | some job => exact .bind (validateExistingJob_common _ _).abstains fun _ => trivial
    | none =>
      refine .bind (.perform rfl) fun r => .bind (.attempt (insertJob_abstains _ _ _ _ _ _))
        fun outcome => ?_
      cases outcome with
      | ok job =>
        refine .bind (.tryCatch (.perform rfl) fun _ => trivial) fun _ =>
          .bind (notifyPostCommit_common _).abstains fun _ => trivial
      | error e => cases e with
        | duplicateJobIdempotencyKey =>
          exact .bind (releaseReservation_abstains r) fun _ => .bind (.perform rfl) fun _ => trivial
        | _ => exact .bind (releaseReservation_abstains r) fun _ => trivial
  · cases result with
    | some result => trivial
    | none => exact .bind (loadExistingJob_common _ _ _).abstains fun _ => trivial

theorem finishCancel_common (job : StoredJobDTO) (message : String) :
    Common (finishCancel job message) := by
  refine .bind (createSystemLog_executes _ _ _).common fun _ => .bind (.perform rfl) fun _ =>
    .bind (.tryCatch (.perform rfl) fun _ => trivial) fun _ => .bind ?_ fun _ =>
    .bind (notifyPostCommit_common _) fun _ => trivial
  refine Common.withUow (.bind (.bind (.perform rfl) fun _ => trivial) fun job => ?_)
  cases job <;> trivial

theorem loadAuthorizedJobForUpdate_common (user : CurrentUserDTO) (j : Uuid) :
    Common (loadAuthorizedJobForUpdate user j) := by
  unfold loadAuthorizedJobForUpdate
  split
  · refine .bind (.bind (.perform rfl) fun _ => trivial) fun job => ?_
    cases job <;> trivial
  · refine .bind (.bind (.perform rfl) fun _ => trivial) fun job => ?_
    cases job <;> trivial

theorem cancelJob_common (user : CurrentUserDTO) (j : Uuid) : Common (cancelJob user j) :=
  .bind (.perform rfl) fun _ => Common.withUow (.bind (loadAuthorizedJobForUpdate_common user j)
    fun _ => .ite (guarded_common rfl (finishCancel_common _ _) trivial)
      (.ite (guarded_common rfl (finishCancel_common _ _) trivial) (.ite trivial trivial)))

end JobService

namespace JobWorker

theorem notifyPostCommit_executes (j owner : Uuid) (status : JobStatus) (n : Nat) (t : Datetime) :
    Executes (notifyPostCommit j owner status n t) :=
  .tryCatch (notifyJobStateChanged_executes _) fun _ => trivial

/-- How every branch with a statement of its own ends. -/
theorem report_executes (j owner : Uuid) (level message : String) (status : JobStatus) (n : Nat)
    (t : Datetime) :
    Executes ((JobLogs.createSystemLog j level message).bind fun _ => commit.bind fun _ =>
      notifyPostCommit j owner status n t) :=
  .bind (createSystemLog_executes _ _ _) fun _ => .bind (.perform rfl) fun _ =>
    notifyPostCommit_executes _ _ _ _ _

theorem decideClaim_common (w : JobWorker) (owner : Uuid) (job : JobExecutionDTO) (token : Uuid)
    (now : Datetime) : Common (decideClaim w owner job token now) := by
  refine .ite trivial (.ite trivial (.ite trivial
    (.ite ?_ (.bind (.perform rfl) fun n => .ite ?_ ?_))))
  · exact .bind (guarded_common rfl (report_executes _ _ _ _ _ _ _).common trivial) fun _ => trivial
  · refine .bind (.bind (createDispatchEventIfAbsent_executes _ _).common fun ev =>
        .bind ?_ fun _ =>
      .bind (.perform rfl) fun _ => (notifyPostCommit_executes _ _ _ _ _).common) fun _ => trivial
    cases ev with
    | none => trivial
    | some ev => exact (createSystemLog_executes _ _ _).common
  · exact guarded_common rfl (.bind (createSystemLog_executes _ _ _).common fun _ =>
        .bind (.perform rfl) fun _ =>
      .bind (notifyPostCommit_executes _ _ _ _ _).common fun _ => trivial) trivial

theorem claimExecution_common (w : JobWorker) (m : DispatchOutboxMessage) :
    Common (claimExecution w m) := by
  refine .bind (.perform rfl) fun now => .bind (.perform rfl) fun token =>
    Common.withUow (.bind (.bind (.perform rfl) fun _ => trivial) fun owner => ?_)
  cases owner with
  | none => trivial
  | some owner =>
    refine .bind (.perform rfl) fun user => .ite trivial
      (.bind (.bind (.perform rfl) fun _ => trivial) fun job => ?_)
    cases job with
    | none => trivial
    | some job => exact decideClaim_common _ _ _ _ _

theorem runHandler_executes (claim : ExecutionClaim) :
    ∀ run : HandlerRun, Executes (runHandler claim run)
  | .done => trivial
  | .raise _ => trivial
  | .poll k => by
    refine .bind (.attempt (Executes.withUow (.bind (.bind (.perform rfl) fun _ => trivial)
      fun job => ?_)))
      fun r => runHandler_executes claim (k r)
    cases job with
    | none => trivial
    | some job => exact .ite trivial trivial

theorem executeHandler_executes (w : JobWorker) (claim : ExecutionClaim) :
    Executes (executeHandler w claim) := by
  unfold executeHandler
  split
  · trivial
  · exact .bind (.perform rfl) fun _ => runHandler_executes _ _

theorem markCompleted_executes (claim : ExecutionClaim) : Executes (markCompleted claim) :=
  .bind (.perform rfl) fun _ => Executes.withUow
    (guarded_executes rfl (report_executes _ _ _ _ _ _ _) trivial)

theorem markCancelled_executes (claim : ExecutionClaim) : Executes (markCancelled claim) :=
  .bind (.perform rfl) fun _ => Executes.withUow
    (guarded_executes rfl (report_executes _ _ _ _ _ _ _) trivial)

theorem markFailed_executes (claim : ExecutionClaim) (error : String) :
    Executes (markFailed claim error) :=
  .bind (.perform rfl) fun _ => Executes.withUow
    (guarded_executes rfl (report_executes _ _ _ _ _ _ _) trivial)

theorem finalizeFailure_executes (claim : ExecutionClaim) (error : String) :
    Executes (finalizeFailure claim error) := by
  refine .ite (markFailed_executes claim error) (.bind (.perform rfl) fun now => .bind ?_ fun _ =>
    Executes.withUow (guarded_executes rfl (.bind (createDispatchEventIfAbsent_executes _ _)
        fun _ =>
      report_executes _ _ _ _ _ _ _) trivial))
  unfold retryBackoffSeconds
  split <;> trivial

theorem executeClaim_executes (w : JobWorker) (claim : ExecutionClaim) :
    Executes (executeClaim w claim) := by
  refine .bind (.attempt (executeHandler_executes _ _)) fun outcome => ?_
  cases outcome with
  | ok a => exact markCompleted_executes _
  | error e => cases e with
    | jobCancellationRequested text => exact markCancelled_executes _
    | missingJobHandler text => exact markFailed_executes _ _
    | _ => exact finalizeFailure_executes _ _

theorem handleMessage_common (w : JobWorker) (m : Message) : Common (handleMessage w m) := by
  unfold handleMessage
  split
  · exact .perform rfl
  · refine .bind (claimExecution_common _ _) fun claim => ?_
    cases claim with
    | none => exact .perform rfl
    | some claim => exact .bind (executeClaim_executes _ _).common fun _ => .perform rfl

end JobWorker

namespace StaleRunningRecovery

theorem recoverStaleJob_common (job : JobExecutionDTO) (now : Datetime) :
    Common (recoverStaleJob job now) := by
  unfold recoverStaleJob
  split
  · trivial
  · refine .bind (.perform rfl) fun owner => .ite trivial (.ite ?_ ?_)
    · exact guarded_common rfl (.bind (createSystemLog_executes _ _ _).common fun _ =>
        trivial) trivial
    · exact guarded_common rfl (.bind (createDispatchEventIfAbsent_executes _ _).common fun _ =>
        .bind (createSystemLog_executes _ _ _).common fun _ => trivial) trivial

theorem recoverAll_common (now : Datetime) : ∀ jobs : List JobExecutionDTO,
    Common (recoverAll now jobs)
  | [] => trivial
  | job :: rest => .bind (recoverStaleJob_common job now) fun _ =>
      .bind (recoverAll_common now rest) fun _ => trivial

theorem notifyAll_common : ∀ ns : List JobPostCommitNotification, Common (notifyAll ns)
  | [] => trivial
  | _ :: ns => .bind (.tryCatch (notifyJobStateChanged_executes _).common fun _ => trivial) fun _ =>
      notifyAll_common ns

theorem recoverDueBatchOnce_common (settings : Settings) :
    Common (recoverDueBatchOnce settings) := by
  refine .bind (.perform rfl) fun now => .bind
    (Common.withUow (.bind (.bind (.perform rfl) fun _ => trivial)
    fun jobs => .bind (recoverAll_common now jobs) fun ns => .bind ?_ fun _ => trivial))
    fun ns => .bind (notifyAll_common ns) fun _ => trivial
  cases ns with
  | nil => trivial
  | cons n ns => exact .perform rfl

end StaleRunningRecovery

namespace OutboxPublisher

/-- How a transaction of the publisher ends. -/
theorem markPublished_createsNothing (e : Uuid) (now : Datetime) :
    CreatesNothing ((Outbox.markPublished e now).bind fun _ => commit.bind fun _ => .ret true) :=
  .bind (.bind (.perform rfl) fun _ => trivial) fun _ => .bind (.perform rfl) fun _ => trivial

theorem discard_createsNothing (ev : OutboxEvent) (status : JobStatus) :
    CreatesNothing ((discardNonDispatchableEvent ev status).bind fun _ => commit.bind fun _ =>
      .ret true) := by
  refine .bind (.bind (createSystemLog_executes _ _ _).common.createsNothing fun _ =>
    .bind (.perform rfl) fun _ => ?_)
    fun _ => .bind (.perform rfl) fun _ => trivial
  exact .bind (.perform rfl) fun _ => trivial

theorem stageAndPublish_createsNothing (ev : OutboxEvent) (job : StoredJobDTO) :
    CreatesNothing (stageAndPublish ev job) := by
  refine .bind (.ofExcept _) fun message => .ite (.bind (.perform rfl) fun _ =>
      .bind (.perform rfl) fun queued =>
    .ite (.bind (.perform rfl) fun _ => trivial) ?_) (.bind (.perform rfl) fun _ => trivial)
  exact discard_createsNothing ev job.status

theorem recordFailure_createsNothing (ev : OutboxEvent) (error : String) :
    CreatesNothing (recordFailureAfterRollback ev error) := by
  refine .bind (.perform rfl) fun _ => .bind (.perform rfl) fun _ =>
    asks_withUow rfl (fun _ => rfl) ?_
  exact .bind (.bind (.perform rfl) fun _ => .bind (.perform rfl) fun _ => trivial) fun _ =>
    .perform rfl

theorem processLocked_createsNothing (ev : OutboxEvent) (job : StoredJobDTO) :
    CreatesNothing (processLocked ev job) := by
  refine .ite (.bind (.attempt (stageAndPublish_createsNothing ev job)) fun outcome => ?_)
    (discard_createsNothing ev job.status)
  cases outcome with
  | error e => exact .bind (recordFailure_createsNothing ev _) fun _ => trivial
  | ok returned => cases returned with
    | true => trivial
    | false => exact .bind (.perform rfl) fun _ => markPublished_createsNothing _ _

theorem processClaimedEventOnce_createsNothing (e : Uuid) :
    CreatesNothing (processClaimedEventOnce e) := by
  refine asks_withUow rfl (fun _ => rfl) (.bind (.perform rfl) fun found => ?_)
  cases found with
  | none => trivial
  | some ev =>
    refine .bind (.bind (.perform rfl) fun _ => trivial) fun job => ?_
    cases job with
    | none => exact .bind (.perform rfl) fun _ => markPublished_createsNothing _ _
    | some job => exact processLocked_createsNothing ev job

theorem processAll_createsNothing : ∀ ids : List Uuid, CreatesNothing (processAll ids)
  | [] => trivial
  | e :: rest => .bind (processClaimedEventOnce_createsNothing e) fun _ =>
      .bind (processAll_createsNothing rest) fun _ => trivial

theorem publishDueBatchOnce_createsNothing (settings : Settings) :
    CreatesNothing (publishDueBatchOnce settings) :=
  .bind (.perform rfl) fun _ => .bind (asks_withUow rfl (fun _ => rfl)
    (.bind (.perform rfl) fun _ => trivial))
    fun _ => processAll_createsNothing _

end OutboxPublisher

end Common

/-- Every operation but `create_job`. -/
theorem Call.prog_createsNothing (P : Params) {c : Call}
    (h : ∀ settings user key type payload, c ≠ .createJob settings user key type payload) :
    CreatesNothing (c.prog P) := by
  cases c with
  | createJob settings user key type payload => exact absurd rfl (h settings user key type payload)
  | cancelJob => exact .bind (JobService.cancelJob_common _ _).createsNothing fun _ => trivial
  | publishDueBatchOnce =>
    exact .bind (OutboxPublisher.publishDueBatchOnce_createsNothing _) fun _ => trivial
  | handleMessage =>
    exact .bind (JobWorker.handleMessage_common _ _).createsNothing fun _ => trivial
  | recoverDueBatchOnce =>
    exact .bind (StaleRunningRecovery.recoverDueBatchOnce_common _).createsNothing fun _ => trivial

end CloudJob
