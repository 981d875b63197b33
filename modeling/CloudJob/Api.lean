import CloudJob.Limited
import CloudJob.Listing

/-!
# `Api.lean` — the five operations of `JobService`

`create_job`, `get_job_detail`, `list_job_logs`, `cancel_job` and `list_jobs` as one process of the
API runs them, over the database, the counters of the rate limiter and the list cache. The log query
is the one call that is new here. A Redis call of the cache may raise, and so may every statement;
the rate limiter's Redis works. -/

set_option autoImplicit false

namespace CloudJob

open Lib

/-! ## Logs -/

def JOB_LOG_LIST_LIMIT : Nat := 500

structure JobLogEntryDTO where
  id : Nat
  jobId : Uuid
  attemptNumber : Option Nat
  level : String
  message : String
  createdAt : Datetime
deriving DecidableEq

/-- `ORDER BY created_at, id`. -/
def logOrder (a b : JobLogEntryDTO) : Prop :=
  a.createdAt < b.createdAt ∨ (a.createdAt = b.createdAt ∧ a.id ≤ b.id)

instance : DecidableRel logOrder := fun a b =>
  inferInstanceAs (Decidable (a.createdAt < b.createdAt ∨
    (a.createdAt = b.createdAt ∧ a.id ≤ b.id)))

/-- The log rows; `logId n` is what the identity column gave the row that was inserted as the
`n`-th. -/
def Db.logEntries (db : Db) (logId : Nat → Nat) : List JobLogEntryDTO :=
  db.logs.zipIdx.map fun x =>
    ⟨logId x.2, x.1.jobId, x.1.attemptNumber, x.1.level, x.1.message, x.1.createdAt⟩

/-- The log rows of a job. -/
def Db.logsOf (db : Db) (logId : Nat → Nat) (jobId : Uuid) : List JobLogEntryDTO :=
  (db.logEntries logId).filter fun entry => entry.jobId == jobId

/-- `list_entries_for_job`. -/
def listEntriesForJob (db : Db) (logId : Nat → Nat) (jobId : Uuid) : List JobLogEntryDTO :=
  ((db.logsOf logId jobId).insertionSort logOrder).take JOB_LOG_LIST_LIMIT

/-! ## Calls -/

inductive ApiOp where
  | service (o : Op)
  | listEntriesForJob (jobId : Uuid)
  | listing (o : ListOp)

@[reducible] def ApiOp.Ret : ApiOp → Type
  | .service o => o.Ret
  | .listEntriesForJob _ => List JobLogEntryDTO
  | .listing o => o.Ret

inductive ApiExc where
  | service (e : Exc)
  | listing (e : ListExc)
deriving DecidableEq

@[reducible] def apiSig : Sig := ⟨ApiOp, ApiOp.Ret, ApiExc⟩

abbrev ApiCode (α : Type) := Prog apiSig α

/-- Code of the job service, as code of the API. -/
def onService {α : Type} : Code α → ApiCode α
  | .ret a => .ret a
  | .raise e => .raise (.service e)
  | .call o k => .call (.service o) fun r => match r with
    | .ok a => onService (k (.ok a))
    | .error (.service e) => onService (k (.error e))
    | .error (.listing e) => .raise (.listing e)

/-- Code of the listing. -/
def onListing {α : Type} : ListCode α → ApiCode α
  | .ret a => .ret a
  | .raise e => .raise (.listing e)
  | .call o k => .call (.listing o) fun r => match r with
    | .ok a => onListing (k (.ok a))
    | .error (.listing e) => onListing (k (.error e))
    | .error (.service e) => .raise (.service e)

/-- `withUow`, around code of the API. -/
def apiUow {α : Type} (body : ApiCode α) : ApiCode α :=
  (onService (call .aenter)).bind fun _ => body.attempt.bind fun r => match r with
    | .ok a => (onService (call (.aexit false))).bind fun _ => .ret a
    | .error e => (onService (call (.aexit true))).bind fun _ => .raise e

/-! ## Operations -/

namespace JobService

/-- `_load_authorized_job`. -/
def loadAuthorizedJob (currentUser : CurrentUserDTO) (jobId : Uuid) : Code StoredJobDTO :=
  withUow do
    let job ← if currentUser.role = .admin then Jobs.getById jobId
      else Jobs.getByIdForOwner jobId currentUser.id
    match job with
    | none => .raise (.resourceNotFound "Job not found")
    | some job => return job

/-- `get_job_detail`. -/
def getJobDetail (currentUser : CurrentUserDTO) (jobId : Uuid) : Code JobPublicDTO := do
  let job ← loadAuthorizedJob currentUser jobId
  return toJobPublicDto job

/-- `list_job_logs`. -/
def listJobLogs (currentUser : CurrentUserDTO) (jobId : Uuid) : ApiCode (List JobLogEntryDTO) := do
  let _ ← onService (loadAuthorizedJob currentUser jobId)
  apiUow (Prog.perform (S := apiSig) (.listEntriesForJob jobId))

end JobService

inductive ApiCall where
  | createJob (settings : Settings) (idempotencyKey : String) (jobType : JobType) (payload : Json)
  | getJobDetail (jobId : Uuid)
  | listJobLogs (jobId : Uuid)
  | cancelJob (jobId : Uuid)
  | listJobs (cursor : Option String) (limit : Option Int)

inductive ApiResult where
  | created (result : JobCreateResultDTO)
  | job (job : JobPublicDTO)
  | logs (entries : List JobLogEntryDTO)
  | page (page : JobListPageDTO)

def ApiCall.prog (P : Params) (C : Codec) (user : CurrentUserDTO) : ApiCall → ApiCode ApiResult
  | .createJob settings key type payload =>
      (onService (JobService.createJob P.sha256 settings user key type payload)).bind fun r =>
        .ret (.created r)
  | .getJobDetail jobId => (onService (JobService.getJobDetail user jobId)).bind fun j =>
      .ret (.job j)
  | .listJobLogs jobId => (JobService.listJobLogs user jobId).bind fun l => .ret (.logs l)
  | .cancelJob jobId => (onService (JobService.cancelJob user jobId)).bind fun j => .ret (.job j)
  | .listJobs cursor limit =>
      (onListing (CloudJob.listJobs C (redisJobListCache C) user cursor limit)).bind fun page =>
        .ret (.page page)

/-! ## The state behind them -/

structure ApiState where
  shared : Shared
  counters : Counters
  versions : Option Uuid → Nat
  pages : String → Option Json
  logId : Nat → Nat

namespace ApiState

variable (P : Params) (L : RedisCreateJobRateLimiter) (C : Codec) (p : Pid)

def list (a : ApiState) : ListState := ⟨a.shared.core.db, a.versions, a.pages⟩

/-- What an invalidation does to the versions. -/
def bumped (a : ApiState) (o : Op) : Option Uuid → Nat :=
  match o with
  | .redisInvalidate ownerId => (ListState.exec (.incrVersions ownerId) a.list).2.versions
  | _ => a.versions

/-- A call of the listing that raises. -/
def listingFails (text : String) : ListOp → ApiExc
  | .query _ _ _ => .service (.database text)
  | _ => .listing (.redis text)

/-- One call. A listing writes to the cache only. -/
def exec : (o : ApiOp) → Choice → ApiState → Option (Except ApiExc o.Ret × ApiState)
  | .service o, c, a => (Limited.exec P L p o c ⟨a.shared, a.counters⟩).map fun x =>
      (x.1.mapError .service, { a with
        shared := x.2.shared
        counters := x.2.counters
        versions := if x.1.isOk then a.bumped o else a.versions })
  | .listEntriesForJob jobId, .answer, a =>
      some (.ok (CloudJob.listEntriesForJob (a.shared.view p) a.logId jobId), a)
  | .listEntriesForJob _, .fails text, a => some (.error (.service (.database text)), a)
  | .listing o, .answer, a =>
      some ((ListState.exec o a.list).1.mapError .listing,
        { a with pages := (ListState.exec o a.list).2.pages })
  | .listing o, .fails text, a => some (.error (listingFails text o), a)
  | _, _, _ => none

/-- Time passes. -/
def tick (a : ApiState) (d : Nat) : ApiState :=
  { a with shared := { a.shared with core := { a.shared.core with clock := a.shared.core.clock + d }
    } }

/-- A call after some time, and how it goes: the first of the turns that are left. -/
def turn (o : ApiOp) (x : ApiState × (Nat → Nat × Choice)) :
    Option (Except ApiExc o.Ret × (ApiState × (Nat → Nat × Choice))) :=
  (exec P L p o (x.2 0).2 (x.1.tick (x.2 0).1)).map fun y => (y.1, (y.2, fun n => x.2 (n + 1)))

/-- A process begins with no transaction of its own, and is no consumer. -/
def enter (a : ApiState) : ApiState :=
  { a with shared := { a.shared.release p with calls := Function.update a.shared.calls p none } }

/-- Process `p` runs an operation of `user` to its end, and nobody else moves. -/
def run (user : CurrentUserDTO) (c : ApiCall) (turns : Nat → Nat × Choice) (a : ApiState) :
    Option (Except ApiExc ApiResult × (ApiState × (Nat → Nat × Choice))) :=
  (c.prog P C user).drive (turn P L p) (a.enter p, turns)

end ApiState

end CloudJob
