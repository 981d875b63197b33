import CloudJob.Lib.Machine
import CloudJob.Db

/-!
# `Runtime.lean` — what the program's calls do

The outside calls of the program — SQL statements, `commit` and `rollback`, the broker, Redis, the
clock, `uuid4` — and their meaning on one shared state.

**Transactions.** PostgreSQL at READ COMMITTED: a statement sees the committed rows and the writes
its own transaction has staged (`view`); a write stages; `commit` applies what is staged to the
committed database and records it in the history. Row locks are taken by `FOR UPDATE` and by every
write, and held until the transaction ends. A statement that needs a row another transaction holds
has no outcome until the row is free, which is how waiting is modelled; one with `SKIP LOCKED`
passes the row over. An `UPDATE` evaluates its `WHERE` on the latest committed row. The unique index
on `(owner_id, idempotency_key)` is a lock of its own (`LockRow.jobKey`): a second insert of the
same pair waits for the first one's transaction.

A process has one transaction, which ends at `commit`, `rollback` or `__aexit__`. Units of work nest
in two places (`_load_existing_job_by_id`, `failure_uow`), each after the outer one was committed or
rolled back, so that every `__aenter__` is made with nothing staged and nothing locked; that this is
so is part of what is proved of the programs, as the precondition of `aenter`.

**Failures.** Every call to an outside system may raise without effect (`Choice.fails`); `commit`
and `publish_dispatch` may also raise after taking effect (`Choice.failsAfter`). A process may die
between any two calls, which ends its transaction.

Two things are left out because leaving them out only adds behaviour: the check constraints on
`jobs` (any insert may fail anyway), and the `KEY SHARE` locks of foreign keys. -/

set_option autoImplicit false

namespace CloudJob

open Lib

/-- What a row lock is on. `jobKey` is the unique index entry of a pair `(owner_id,
idempotency_key)`. -/
inductive LockRow where
  | user (id : Uuid)
  | job (id : Uuid)
  | event (id : Uuid)
  | jobKey (ownerId : Uuid) (key : String)
deriving DecidableEq, Repr

/-- A message body, as `DispatchOutboxMessage.model_validate_json` sees it. -/
inductive MessageBody where
  | dispatch (m : DispatchOutboxMessage)
  | invalid (text : String)
deriving DecidableEq, Repr

structure Message where
  id : Nat
  body : MessageBody
deriving DecidableEq, Repr

/-- Message `m` asks for job `j` to be executed. -/
def Message.IsFor (m : Message) (j : Uuid) : Prop := ∃ d, m.body = .dispatch d ∧ d.jobId = j

/-- What the history records: a statement that was committed, an attempt that was started, and the
two post-commit effects. -/
inductive Event where
  | stmt (st : Stmt)
  | handlerStarted (jobId token : Uuid)
  | invalidated (ownerId : Uuid)
  | announced (ev : JobStatusEvent)

structure Entry where
  pid : Pid
  clock : Datetime
  event : Event

/-- The durable part of the system: the committed database with its history (newest first), the
broker's unacked messages, and the time.

`spent` holds the messages on which some `_claim_execution` call has left its unit of work without
an exception. Every call does so before it returns, so a message on which a call has returned is
spent. -/
structure Core where
  db : Db
  history : List Entry
  broker : List Message
  spent : List Nat
  nextMsg : Nat
  clock : Datetime

def Core.init : Core := ⟨.empty, [], [], [], 0, 0⟩

/-- The operations a process can run. -/
inductive Call where
  | createJob (settings : Settings) (currentUser : CurrentUserDTO) (idempotencyKey : String)
      (jobType : JobType) (payload : Json)
  | cancelJob (currentUser : CurrentUserDTO) (jobId : Uuid)
  | publishDueBatchOnce (settings : Settings)
  | handleMessage (settings : Settings) (workerId : String) (message : Message)
  | recoverDueBatchOnce (settings : Settings)

structure Shared where
  core : Core
  locks : LockRow → Option Pid
  staged : Pid → List Stmt
  /-- Who drew a uuid. -/
  uuidOwner : Uuid → Option Pid
  calls : Pid → Option Call

def Shared.init : Shared := ⟨.init, fun _ => none, fun _ => [], fun _ => none, fun _ => none⟩

/-! ## Calls -/

inductive Op where
  | now
  | uuid4
  | aenter
  | selectJob (id : Uuid) (ownerId : Option Uuid)
  | selectJobByKey (ownerId : Uuid) (key : String)
  | countRunning (ownerId : Uuid)
  | selectPendingDispatch (jobId : Uuid)
  | selectJobForUpdate (id : Uuid) (ownerId : Option Uuid)
  | lockUser (id : Uuid)
  | lockExpiredJobs (now : Datetime) (limit : Nat)
  | lockDueEvents (now : Datetime) (limit : Nat)
  | lockUnpublishedEvent (id : Uuid)
  | write (st : Stmt)
  | commit
  | rollback
  | aexit (raised : Bool)
  | publishDispatch (message : DispatchOutboxMessage)
  | ack (id : Nat)
  | reject (id : Nat)
  | startHandler (jobId token : Uuid)
  | reserve (userId : Uuid)
  | releaseReservation (reservation : CreateJobRateLimitReservationDTO)
  | redisInvalidate (ownerId : Uuid)
  | redisPublish (ev : JobStatusEvent)

@[reducible] def Op.Ret : Op → Type
  | .now => Datetime
  | .uuid4 => Uuid
  | .selectJob _ _ => Option Job
  | .selectJobByKey _ _ => Option Job
  | .countRunning _ => Nat
  | .selectPendingDispatch _ => Option Uuid
  | .selectJobForUpdate _ _ => Option Job
  | .lockUser _ => Bool
  | .lockExpiredJobs _ _ => List Job
  | .lockDueEvents _ _ => List OutboxEvent
  | .lockUnpublishedEvent _ => Option OutboxEvent
  | .write _ => Bool
  | .reserve _ => Option CreateJobRateLimitReservationDTO
  | _ => Unit

@[reducible] def sig : Sig := ⟨Op, Op.Ret, Exc⟩

abbrev Code (α : Type) := Prog sig α

/-- How a call goes. -/
inductive Choice where
  | answer
  | fails (text : String)
  | failsAfter (text : String)
  | time (t : Datetime)
  | uuid (u : Uuid)
  | reservation (r : Option CreateJobRateLimitReservationDTO)

/-- What a failure of the call raises; `none` for calls that leave no process. -/
def Op.failure (text : String) : Op → Option Exc
  | .now | .uuid4 | .aenter | .startHandler _ _ | .releaseReservation _ => none
  | .reserve _ => some .rateLimitExceeded
  | .publishDispatch _ | .ack _ | .reject _ => some (.broker text)
  | .redisInvalidate _ | .redisPublish _ => some (.redis text)
  | _ => some (.database text)

/-! ## Rows and locks -/

/-- The rows a write statement locks. -/
def Stmt.rows : Stmt → List LockRow
  | .insertJob job => [.job job.id, .jobKey job.ownerId job.idempotencyKey]
  | .insertLog _ => []
  | .insertEvent ev => [.event ev.id]
  | .updateJob id _ => [.job id]
  | .updateEvent id _ => [.event id]

/-- How a write statement meets the rows it sees. -/
inductive WriteOutcome where
  | matched
  | noMatch
  | violates (orig : IntegrityError)

def Stmt.outcome (v : Db) : Stmt → WriteOutcome
  | .insertJob job =>
      if (v.jobByKey job.ownerId job.idempotencyKey).isSome then
        .violates ⟨some "23505", some "uq_jobs_owner_id_idempotency_key", "duplicate key value"⟩
      else if job.ownerId ∉ v.users then
        .violates ⟨some "23503", some "fk_jobs_owner_id_users", "foreign key violation"⟩
      else if (v.job job.id).isSome then .violates ⟨some "23505", some "pk_jobs",
        "duplicate key value"⟩
      else .matched
  | .insertLog _ => .matched
  | .insertEvent ev =>
      if (v.event ev.id).isSome then
        .violates ⟨some "23505", some "pk_outbox_events", "duplicate key value"⟩
      else .matched
  | .updateJob id st => if (v.job id).any st.update.guard then .matched else .noMatch
  | .updateEvent id st => if (v.event id).any st.update.guard then .matched else .noMatch

namespace Shared

variable (s : Shared) (p : Pid)

/-- What a statement of `p` sees: the committed rows and its own writes. -/
def view : Db := s.core.db.applyAll (s.staged p)

/-- No other transaction holds the row. -/
def free (r : LockRow) : Bool := s.locks r == none || s.locks r == some p

def lock (rs : List LockRow) : Shared :=
  { s with locks := fun r => if r ∈ rs then some p else s.locks r }

def stage (st : Stmt) : Shared :=
  { s with staged := Function.update s.staged p (s.staged p ++ [st]) }

/-- The transaction of `p` is over. -/
def release : Shared :=
  { s with
    locks := fun r => if s.locks r = some p then none else s.locks r
    staged := Function.update s.staged p [] }

/-- The message `p` was started on, if it is a consumer. -/
def handling : Option Message :=
  match s.calls p with
  | some (.handleMessage _ _ m) => some m
  | _ => none

def spend : Shared :=
  match s.handling p with
  | some m => { s with core := { s.core with spent := m.id :: s.core.spent } }
  | none => s

end Shared

namespace Core

variable (c : Core) (p : Pid)

def record (evs : List Event) : Core :=
  { c with history := (evs.map (Entry.mk p c.clock)).reverse ++ c.history }

/-- The effect of a committed transaction. -/
def commit (stmts : List Stmt) : Core :=
  { c with
    db := c.db.applyAll stmts
    history := ((stmts.map Event.stmt).map (Entry.mk p c.clock)).reverse ++ c.history }

def send (body : MessageBody) : Core :=
  { c with broker := ⟨c.nextMsg, body⟩ :: c.broker, nextMsg := c.nextMsg + 1 }

def drop (id : Nat) : Core := { c with broker := c.broker.filter (·.id ≠ id) }

end Core

/-! ## Executing a call -/

/-- The regular answer of a call, where it has one now. -/
def Shared.answer (p : Pid) (s : Shared) : (o : Op) → Option (Except Exc o.Ret × Shared)
  | .aenter => some (.ok (), s)
  | .selectJob id ownerId =>
      some (.ok ((s.view p).job id |>.filter fun j => ownerId.all (· == j.ownerId)), s)
  | .selectJobByKey ownerId key => some (.ok ((s.view p).jobByKey ownerId key), s)
  | .countRunning ownerId => some (.ok ((s.view p).runningCount ownerId), s)
  | .selectPendingDispatch jobId => some (.ok ((s.view p).pendingDispatch jobId), s)
  | .selectJobForUpdate id ownerId =>
      match (s.view p).job id |>.filter fun j => ownerId.all (· == j.ownerId) with
      | none => some (.ok none, s)
      | some j => if s.free p (.job id) then some (.ok (some j), s.lock p [.job id]) else none
  | .lockUser id =>
      if id ∈ (s.view p).users then
        if s.free p (.user id) then some (.ok true, s.lock p [.user id]) else none
      else some (.ok false, s)
  | .lockExpiredJobs now limit =>
      let rows := (((s.view p).expiredRunning now).filter fun j => s.free p (.job j.id)).take limit
      some (.ok rows, s.lock p (rows.map fun j => .job j.id))
  | .lockDueEvents now limit =>
      let rows := (((s.view p).dueEvents now).filter fun ev => s.free p (.event ev.id)).take limit
      some (.ok rows, s.lock p (rows.map fun ev => .event ev.id))
  | .lockUnpublishedEvent id =>
      match (s.view p).event id |>.filter fun ev => ev.publishedAt.isNone with
      | none => some (.ok none, s)
      | some ev =>
          if s.free p (.event id) then some (.ok (some ev), s.lock p [.event id])
          else some (.ok none, s)
  | .write st =>
      match st.outcome (s.view p) with
      | .noMatch => some (.ok false, s)
      | .violates orig => some (.error (.integrity orig), s)
      | .matched =>
          if st.rows.all (s.free p) then some (.ok true, (s.lock p st.rows).stage p st) else none
  | .commit => some (.ok (), ({ s with core := s.core.commit p (s.staged p) }.release p).spend p)
  | .rollback => some (.ok (), s.release p)
  | .aexit raised => some (.ok (), if raised then s.release p else (s.release p).spend p)
  | .publishDispatch message => some (.ok (), { s with core := s.core.send (.dispatch message) })
  | .ack id => some (.ok (), { s with core := s.core.drop id })
  | .reject id => some (.ok (), { s with core := s.core.drop id })
  | .startHandler jobId token =>
      some (.ok (), { s with core := s.core.record p [.handlerStarted jobId token] })
  | .releaseReservation _ => some (.ok (), s)
  | .redisInvalidate ownerId =>
      some (.ok (), { s with core := s.core.record p [.invalidated ownerId] })
  | .redisPublish ev => some (.ok (), { s with core := s.core.record p [.announced ev] })
  | .now => none
  | .uuid4 => none
  | .reserve _ => none

/-- A call that raises without effect; leaving a transaction ends it even then. -/
def Shared.fail (p : Pid) (s : Shared) : Op → Shared
  | .rollback => s.release p
  | .aexit _ => s.release p
  | _ => s

/-- A call that raises after its effect. -/
def Shared.lateFail (p : Pid) (text : String) (s : Shared) :
    (o : Op) → Option (Except Exc o.Ret × Shared)
  | .commit => some (.error (.database text),
      { s with core := s.core.commit p (s.staged p) }.release p)
  | .publishDispatch message => some (.error (.broker text),
      { s with core := s.core.send (.dispatch message) })
  | _ => none

/-- One call of process `p`. `reads now r` says which readings `r` a clock can give at time
`now`. -/
def Shared.exec (reads : Datetime → Datetime → Bool) (p : Pid) (o : Op) (c : Choice) (s : Shared) :
    Option (Except Exc o.Ret × Shared) :=
  match c, o with
  | .answer, o => s.answer p o
  | .fails text, o => (o.failure text).map fun e => (.error e, s.fail p o)
  | .failsAfter text, o => s.lateFail p text o
  | .time t, .now => if reads s.core.clock t then some (.ok t, s) else none
  | .uuid u, .uuid4 =>
      if s.uuidOwner u = none then
        some (.ok u, { s with uuidOwner := Function.update s.uuidOwner u (some p) })
      else none
  | .reservation r, .reserve _ => some (.ok r, s)
  | _, _ => none

/-! ## The environment -/

/-- What happens without any process: time passes, users register, the broker duplicates a message,
or something else puts an invalid one into the queue. -/
inductive EnvAct where
  | tick (d : Nat)
  | register (u : Uuid)
  | duplicate (m : Message)
  | inject (text : String)

/-- A copy is as spent as the original. -/
def Core.duplicate (c : Core) (m : Message) : Core :=
  { c.send m.body with
    spent := if m.id ∈ c.spent then c.nextMsg :: c.spent else c.spent }

def Core.env (c : Core) : EnvAct → Option Core
  | .tick d => some { c with clock := c.clock + d }
  | .register u => some { c with db := { c.db with users := c.db.users ++ [u] } }
  | .duplicate m => if m ∈ c.broker then some (c.duplicate m) else none
  | .inject text => some (c.send (.invalid text))

def Shared.env (a : EnvAct) (s : Shared) : Option Shared :=
  (s.core.env a).map fun c => { s with core := c }

end CloudJob
