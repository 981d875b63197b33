import CloudJob.System

/-!
# `Lifecycle/Action.lean` — what the system is for, one committed action at a time

The life of a job with the concurrency taken out. Where `System.lean` interleaves programs call by
call, here a whole transaction is one `Action`: the list of statements it commits, under a guard on
the state it commits in. Locks, staged writes and programs do not appear.

The guards are the point. They are what the row locks are there to guarantee at the moment of the
commit — the job is still queued, the owner still has capacity, the event still has no successor —
and each is weak enough to be checked by looking at one job, its pending events, its messages and
its owner. The invariants of `Lifecycle/` are proved from the guards alone; that every `commit` any
program ever makes is a `Txn` of this file is `Contract/`.

There is no action that fails a job without an execution, and none that settles an event whose job
is missing. The source has a branch for each; neither is reachable. -/

set_option autoImplicit false

namespace CloudJob

open Lib

/-- Some clock of the deployment has read `t` by the time `now`. -/
def Params.ReadBy (P : Params) (now t : Datetime) : Prop := ∃ t₀ ≤ now, P.reads t₀ t = true

/-- `min(max_retries + 1, MAX_TOTAL_JOB_ATTEMPTS)`, on a row. -/
def Job.maxAttempts (job : Job) : Nat := min (job.maxRetries + 1) MAX_TOTAL_JOB_ATTEMPTS

/-! ## What is read off the state -/

/-- The broker holds a message for `j` on which no `_claim_execution` call has returned. -/
def Core.Unspent (c : Core) (j : Uuid) : Prop := ∃ m ∈ c.broker, m.IsFor j ∧ m.id ∉ c.spent

/-- Job `j` has the row `row`, which is running as `token`. -/
structure Core.RunsAs (c : Core) (j token : Uuid) (row : Job) : Prop where
  found : c.db.job j = some row
  running : row.status = .running
  token : row.executionToken = some token

/-- Event `e`, still unpublished, is a dispatch of job `j`, whose row is `row`. -/
structure Core.Dispatches (c : Core) (e j : Uuid) (row : Job) : Prop where
  found : c.db.job j = some row
  pending : c.db.Pending j e

def Stmt.jobStmt : Stmt → Option (Uuid × JobStmt)
  | .updateJob j st => some (j, st)
  | _ => none

def Entry.jobStmt (en : Entry) : Option (Uuid × JobStmt) :=
  match en.event with
  | .stmt st => st.jobStmt
  | _ => none

theorem Entry.event_of_jobStmt {en : Entry} {x : Uuid × JobStmt} (h : en.jobStmt = some x) :
    en.event = .stmt (.updateJob x.1 x.2) := by
  unfold Entry.jobStmt at h
  split at h
  · rename_i st hev
    cases st with
    | updateJob j jst =>
      cases h
      exact hev
    | _ => cases h
  · cases h

/-- The job updates that were committed, newest first. -/
def Core.committed (c : Core) : List (Uuid × JobStmt) := c.history.filterMap Entry.jobStmt

/-- How many committed `mark_running` there are of job `j`. -/
def Core.runs (c : Core) (j : Uuid) : Nat :=
  c.committed.countP fun x => x.1 == j && x.2.issues.isSome

/-- How many committed `mark_running` issued the execution token `token`. -/
def Core.issued (c : Core) (token : Uuid) : Nat :=
  c.committed.countP fun x => x.2.issues == some token

/-- How many committed updates closed the execution token `token`. -/
def Core.closed (c : Core) (token : Uuid) : Nat :=
  c.committed.countP fun x => x.2.closes == some token

def Entry.startedToken (j : Uuid) (en : Entry) : Option Uuid :=
  match en.event with
  | .handlerStarted k token => if k = j then some token else none
  | _ => none

/-- The tokens under which the handler of job `j` was started. -/
def Core.startedTokens (c : Core) (j : Uuid) : List Uuid :=
  c.history.filterMap (Entry.startedToken j)

/-- How many times the handler of job `j` was started. -/
def Core.starts (c : Core) (j : Uuid) : Nat := (c.startedTokens j).length

def Entry.startsAs (token : Uuid) (en : Entry) : Bool :=
  match en.event with
  | .handlerStarted _ t => t == token
  | _ => false

/-- How many times a handler was started under the execution token `token`. -/
def Core.startedAs (c : Core) (token : Uuid) : Nat := c.history.countP (Entry.startsAs token)

/-- The events a list of statements inserts. -/
def newEvents (l : List Stmt) : List Uuid :=
  l.filterMap fun st => match st with
    | .insertEvent ev => some ev.id
    | _ => none

/-! ## Actions -/

section Actions

variable (P : Params)

/-- What `create_dispatch_event_if_absent` stages: nothing where a dispatch is pending, else one. -/
inductive Redispatch (c : Core) (j : Uuid) (availableAt : Datetime) : List Stmt → Prop where
  | existing {e : Uuid} : c.db.Pending j e → Redispatch c j availableAt []
  | new {e : Uuid} {t : Datetime} : (∀ e, ¬ c.db.Pending j e) → c.db.event e = none →
      Redispatch c j availableAt [.insertEvent (newDispatchEvent e j t availableAt)]

/-- The transactions that end the running execution of job `j`: the four finalizers of the worker,
and what recovery does with one job of its batch. -/
inductive Closing (c : Core) (j : Uuid) : List Stmt → Prop where
  | completed {row : Job} {token : Uuid} {now t : Datetime} : c.RunsAs j token row →
      P.ReadBy c.clock now →
      Closing c j [.updateJob j (.markCompleted token now),
        .insertLog (systemLog j "info" "Job completed" t)]
  | cancelled {row : Job} {token : Uuid} {now t : Datetime} : c.RunsAs j token row →
      P.ReadBy c.clock now →
      Closing c j [.updateJob j (.markCancelled token now),
        .insertLog (systemLog j "info" s!"Job cancelled during attempt {row.attemptCount}" t)]
  | failed {row : Job} {token : Uuid} {now t : Datetime} {error : String} : c.RunsAs j token row →
      P.ReadBy c.clock now →
      Closing c j [.updateJob j (.markFailed token now error),
        .insertLog (systemLog j "error"
          s!"Job attempt {row.attemptCount} became a final failure: {error}" t)]
  | retried {row : Job} {token : Uuid} {now t : Datetime} {error : String} {delay : Nat}
      {ev : List Stmt} : c.RunsAs j token row → P.ReadBy c.clock now →
      row.attemptCount < row.maxAttempts →
      RETRY_BACKOFF_SECONDS_BY_ATTEMPT.lookup row.attemptCount = some delay →
      Redispatch c j (now + seconds delay) ev →
      Closing c j (.updateJob j (.requeueRunning token now error) :: (ev ++
        [.insertLog (systemLog j "warning"
          (s!"Job attempt {row.attemptCount} failed and was queued " ++
            s!"for retry in {delay} seconds: {error}") t)]))
  | staleFailed {row : Job} {token : Uuid} {now t : Datetime} : c.RunsAs j token row →
      P.ReadBy c.clock now → row.isExpired now = true → row.maxAttempts < row.attemptCount + 1 →
      Closing c j [.updateJob j (.markFailed token now RECOVERY_FINAL_FAILURE_MESSAGE),
        .insertLog (systemLog j "error"
          (s!"Job attempt {row.attemptCount} became a final failure during " ++
            s!"stale running recovery: {RECOVERY_FINAL_FAILURE_MESSAGE}") t)]
  | staleRequeued {row : Job} {token : Uuid} {now t : Datetime} {ev : List Stmt} :
      c.RunsAs j token row → P.ReadBy c.clock now → row.isExpired now = true →
      row.attemptCount + 1 ≤ row.maxAttempts → Redispatch c j now ev →
      Closing c j (.updateJob j (.requeueRunning token now RECOVERY_REQUEUE_MESSAGE) :: (ev ++
        [.insertLog (systemLog j "warning"
          s!"Job attempt {row.attemptCount} was recovered from stale running state and queued for retry"
          t)]))

/-- One transaction of the system. -/
inductive Action (c : Core) : List Stmt → Prop where
  | create {id e owner : Uuid} {type : JobType} {payload : Json} {key : String} {retries : Nat}
      {createdAt updatedAt t t' availableAt : Datetime} :
      c.db.jobByKey owner key = none → owner ∈ c.db.users → c.db.job id = none →
      c.db.event e = none → P.ReadBy c.clock createdAt → P.ReadBy c.clock updatedAt →
      Action c [.insertJob (newPendingJob id owner type payload key
        (P.buildRequestHash type payload)
          retries createdAt updatedAt),
        .insertLog (systemLog id "info" "Job created" t),
        .insertEvent (newDispatchEvent e id t' availableAt)]
  | queue {e j : Uuid} {row : Job} {now now' : Datetime} : c.Dispatches e j row →
      row.status = .pending → c.Unspent j → P.ReadBy c.clock now →
      Action c [.updateJob j (.markQueued now), .updateEvent e (.markPublished now')]
  | republish {e j : Uuid} {row : Job} {now : Datetime} : c.Dispatches e j row →
      row.status = .queued → c.Unspent j → Action c [.updateEvent e (.markPublished now)]
  | discard {e j : Uuid} {row : Job} {now t : Datetime} : c.Dispatches e j row →
      row.status.isDispatchable = false →
      Action c [.insertLog (systemLog j "info"
          s!"Dispatch skipped because job is not dispatchable (status={row.status.value})" t),
        .updateEvent e (.markPublished now)]
  | recordFailure {e : Uuid} {error : String} {next now : Datetime} :
      Action c [.updateEvent e (.recordPublishFailure error next now)]
  | claim {j token : Uuid} {row : Job} {settings : Settings} {workerId : String}
      {now t : Datetime} :
      c.db.job j = some row → row.status = .queued → row.attemptCount + 1 ≤ row.maxAttempts →
      P.allows settings = true →
      c.db.runningCount row.ownerId < settings.jobMaxRunningPerUser → c.issued token = 0 →
      P.ReadBy c.clock now →
      Action c [.updateJob j (.markRunning workerId token now
        (now + seconds settings.jobLeaseSeconds)),
        .insertLog (systemLog j "info" "Job execution started" t)]
  | idle : Action c []
  | defer {e j : Uuid} {row : Job} {now t t' : Datetime} : c.db.job j = some row →
      row.status = .queued → (∀ e, ¬ c.db.Pending j e) → c.db.event e = none →
      P.ReadBy c.clock now →
      Action c [.insertEvent (newDispatchEvent e j t' (now + seconds CAPACITY_DEFER_SECONDS)),
        .insertLog (systemLog j "info"
          "Job dispatch deferred because the owner reached the running-job limit" t)]
  | close {j : Uuid} {l : List Stmt} : Closing P c j l → Action c l
  | cancel {j : Uuid} {row : Job} {now t : Datetime} : c.db.job j = some row →
      row.status.isDispatchable = true → P.ReadBy c.clock now →
      Action c [.updateJob j (.cancelPendingOrQueued now),
        .insertLog (systemLog j "info" "Job cancelled before execution" t)]
  | requestCancel {j : Uuid} {row : Job} {now t : Datetime} : c.db.job j = some row →
      row.status = .running → row.cancelRequestedAt = none → P.ReadBy c.clock now →
      Action c [.updateJob j (.requestRunningCancellation now),
        .insertLog (systemLog j "info" "Job cancellation requested" t)]

/-- What a `commit` commits: one action, or — recovery's batch — one closing for each of several
jobs. -/
inductive Txn (c : Core) : List Stmt → Prop where
  | action {l : List Stmt} : Action P c l → Txn c l
  | batch (items : List (Uuid × List Stmt)) : (items.map Prod.fst).Nodup →
      (newEvents (items.flatMap Prod.snd)).Nodup → (∀ x ∈ items, Closing P c x.1 x.2) →
      Txn c (items.flatMap Prod.snd)

/-! ## Steps -/

/-- Nothing is lost when message `m` is spent: it was already, or its job is not waiting for it. -/
def Core.Dispensable (c : Core) (m : Message) : Prop :=
  ∀ j, m.IsFor j → ∀ row, c.db.job j = some row → row.status = .queued → ∃ e, c.db.Pending j e

/-- Everything that happens to the durable state. -/
inductive Core.Step : Core → Core → Prop where
  | act {c : Core} (p : Pid) {l : List Stmt} : Action P c l → Core.Step c (c.commit p l)
  | spend {c : Core} {m : Message} : m.id < c.nextMsg →
      (∀ m' ∈ c.broker, m'.id = m.id → m' = m) → m.id ∈ c.spent ∨ c.Dispensable m →
      Core.Step c { c with spent := m.id :: c.spent }
  | send {c : Core} {d : DispatchOutboxMessage} : (c.db.job d.jobId).isSome = true →
      Core.Step c (c.send (.dispatch d))
  | drop {c : Core} {id : Nat} : (∀ m ∈ c.broker, m.id = id → m.id ∈ c.spent ∨ ∀ j, ¬ m.IsFor j) →
      Core.Step c (c.drop id)
  | start {c : Core} (p : Pid) {j token : Uuid} : c.startedAs token = 0 →
      (∃ x ∈ c.committed, x.1 = j ∧ x.2.issues = some token) →
      Core.Step c (c.record p [.handlerStarted j token])
  | note {c : Core} (p : Pid) {ev : Event} :
      (∃ o, ev = .invalidated o) ∨ (∃ n, ev = .announced n) → Core.Step c (c.record p [ev])
  | env {c c' : Core} {a : EnvAct} : c.env a = some c' → Core.Step c c'

/-- The states the life cycle passes through. -/
inductive Lawful : Core → Prop where
  | init : Lawful Core.init
  | step {c c' : Core} : Lawful c → Core.Step P c c' → Lawful c'

end Actions

end CloudJob
