import Mathlib.Data.List.Sort
import CloudJob.Lib.Table
import CloudJob.Statements

/-!
# `Db.lean` — the database, its statements, its queries

The committed contents of PostgreSQL as far as the job machinery is concerned, what each write
statement does to them, and the `SELECT`s the repositories issue. A statement is applied to a whole
database here; who may run it, and when it becomes visible, is `Runtime.lean`.

The frame lemmas at the end say what a statement leaves alone. They are all phrased through three
readings of the database — the row of a job, the row of an event, which events of a job are pending
— because those three are everything the rest of the development knows about it. -/

set_option autoImplicit false

namespace CloudJob

open Lib

structure Db where
  users : List Uuid
  jobs : Table Job.id
  logs : List JobLog
  outbox : Table OutboxEvent.id

def Db.empty : Db := ⟨[], .empty, [], .empty⟩

/-- One write statement. -/
inductive Stmt where
  | insertJob (job : Job)
  | insertLog (log : JobLog)
  | insertEvent (ev : OutboxEvent)
  | updateJob (id : Uuid) (st : JobStmt)
  | updateEvent (id : Uuid) (st : EventStmt)

/-- The row after the update: rewritten where the `WHERE` holds. -/
def JobUpdate.run (u : JobUpdate) (j : Job) : Job := if u.guard j then u.set j else j

def EventUpdate.run (u : EventUpdate) (ev : OutboxEvent) : OutboxEvent :=
  if u.guard ev then u.set ev else ev

theorem JobUpdate.run_of_guard {u : JobUpdate} {j : Job} (h : u.guard j = true) :
    u.run j = u.set j :=
  if_pos h

theorem JobUpdate.run_identity (u : JobUpdate) (j : Job) : (u.run j).identity = j.identity := by
  unfold JobUpdate.run
  split
  · exact u.keeps j
  · rfl

theorem JobUpdate.run_id (u : JobUpdate) (j : Job) : (u.run j).id = j.id :=
  congrArg JobIdentity.id (u.run_identity j)

theorem EventUpdate.run_keeps (u : EventUpdate) (ev : OutboxEvent) :
    (u.run ev).id = ev.id ∧ (u.run ev).aggregateId = ev.aggregateId ∧
      (u.run ev).eventType = ev.eventType ∧ (u.run ev).payload = ev.payload := by
  unfold EventUpdate.run
  split
  · exact u.keeps ev
  · exact ⟨rfl, rfl, rfl, rfl⟩

theorem EventUpdate.run_id (u : EventUpdate) (ev : OutboxEvent) : (u.run ev).id = ev.id :=
  (u.run_keeps ev).1

def Stmt.apply (db : Db) : Stmt → Db
  | .insertJob job => { db with jobs := db.jobs.insert job }
  | .insertLog log => { db with logs := db.logs ++ [log] }
  | .insertEvent ev => { db with outbox := db.outbox.insert ev }
  | .updateJob id st => { db with jobs := db.jobs.modify id st.update.run st.update.run_id }
  | .updateEvent id st => { db with outbox := db.outbox.modify id st.update.run st.update.run_id }

/-- A list of statements, in order. -/
def Db.applyAll (db : Db) (stmts : List Stmt) : Db := stmts.foldl Stmt.apply db

/-! ## Queries -/

def Db.job (db : Db) (id : Uuid) : Option Job := db.jobs.find? id

def Db.event (db : Db) (id : Uuid) : Option OutboxEvent := db.outbox.find? id

/-- `get_by_idempotency_key`. -/
def Db.jobByKey (db : Db) (ownerId : Uuid) (key : String) : Option Job :=
  db.jobs.rows.find? fun j => j.ownerId == ownerId && j.idempotencyKey == key

/-- `owner_id = … AND status = 'running'`. -/
def Job.isRunningOf (ownerId : Uuid) (j : Job) : Bool :=
  j.ownerId == ownerId && j.status == .running

/-- `count_running_for_owner`. -/
def Db.runningCount (db : Db) (ownerId : Uuid) : Nat := db.jobs.count (Job.isRunningOf ownerId)

/-- The `SELECT` of `create_dispatch_event_if_absent`. -/
def Db.pendingDispatch (db : Db) (jobId : Uuid) : Option Uuid :=
  (db.outbox.rows.find? (OutboxEvent.isPendingDispatch jobId)).map OutboxEvent.id

/-- `status = 'running' AND lease_expires_at IS NOT NULL AND lease_expires_at < now`. -/
def Job.isExpired (now : Datetime) (j : Job) : Bool :=
  j.status == .running && j.leaseExpiresAt.any (· < now)

/-- Lexicographic `<=` on a list of sort keys. -/
def lexLe : List Int → List Int → Bool
  | [], _ => true
  | _ :: _, [] => false
  | a :: as, b :: bs => a < b || (a == b && lexLe as bs)

/-- `ORDER BY lease_expires_at, created_at, id`. -/
def Job.recoveryOrder (j : Job) : List Int := [j.leaseExpiresAt.getD 0, j.createdAt, (j.id : Int)]

/-- The rows `claim_expired_running_jobs_for_update` goes through, in its order. -/
def Db.expiredRunning (db : Db) (now : Datetime) : List Job :=
  (db.jobs.rows.filter (Job.isExpired now)).insertionSort
    fun a b => lexLe a.recoveryOrder b.recoveryOrder = true

/-- `published_at IS NULL AND available_at <= now`. -/
def OutboxEvent.isDue (now : Datetime) (ev : OutboxEvent) : Bool :=
  ev.publishedAt.isNone && ev.availableAt ≤ now

/-- The rows `claim_due_batch` goes through, in its order. -/
def Db.dueEvents (db : Db) (now : Datetime) : List OutboxEvent :=
  (db.outbox.rows.filter (OutboxEvent.isDue now)).insertionSort
    fun a b => lexLe [a.availableAt, a.createdAt] [b.availableAt, b.createdAt] = true

/-! ## Reading the database after a statement -/

/-- Event `e` is a pending dispatch of job `j`. -/
def Db.Pending (db : Db) (j e : Uuid) : Prop :=
  ∃ ev, db.event e = some ev ∧ ev.isPendingDispatch j = true

theorem Db.pendingDispatch_eq_some {db : Db} {j e : Uuid} (h : db.pendingDispatch j = some e) :
    db.Pending j e := by
  unfold Db.pendingDispatch at h
  simp only [Option.map_eq_some_iff] at h
  obtain ⟨ev, hf, rfl⟩ := h
  exact ⟨ev, Table.find?_of_mem (List.mem_of_find?_eq_some hf), List.find?_some hf⟩

theorem Db.pendingDispatch_eq_none {db : Db} {j : Uuid} :
    db.pendingDispatch j = none ↔ ∀ e, ¬ db.Pending j e := by
  unfold Db.pendingDispatch
  simp only [Option.map_eq_none_iff, List.find?_eq_none]
  constructor
  · rintro h e ⟨ev, hev, hp⟩
    exact h ev (Table.mem_of_find? hev) hp
  · intro h ev hev hp
    exact h ev.id ⟨ev, Table.find?_of_mem hev, hp⟩

theorem Db.jobByKey_eq_some {db : Db} {o : Uuid} {key : String} {job : Job}
    (h : db.jobByKey o key = some job) :
    db.job job.id = some job ∧ job.ownerId = o ∧ job.idempotencyKey = key := by
  unfold Db.jobByKey at h
  have hp := List.find?_some h
  simp only [Bool.and_eq_true, beq_iff_eq] at hp
  exact ⟨Table.find?_of_mem (List.mem_of_find?_eq_some h), hp.1, hp.2⟩

theorem Db.jobByKey_eq_none {db : Db} {o : Uuid} {key : String} :
    db.jobByKey o key = none ↔
      ∀ k job, db.job k = some job → ¬ (job.ownerId = o ∧ job.idempotencyKey = key) := by
  unfold Db.jobByKey
  simp only [List.find?_eq_none, Bool.and_eq_true, beq_iff_eq]
  constructor
  · intro h k job hk
    exact h job (Table.mem_of_find? hk)
  · intro h job hj
    exact h job.id job (Table.find?_of_mem hj)

theorem Db.job_id {db : Db} {k : Uuid} {job : Job} (h : db.job k = some job) : job.id = k :=
  Table.key_of_find? h

theorem Db.event_id {db : Db} {k : Uuid} {ev : OutboxEvent} (h : db.event k = some ev) :
    ev.id = k :=
  Table.key_of_find? h

/-- An event is pending for one job. -/
theorem Db.Pending.unique {db : Db} {j j' e : Uuid} (h : db.Pending j e) (h' : db.Pending j' e) :
    j = j' := by
  obtain ⟨ev, hev, hp⟩ := h
  obtain ⟨ev', hev', hp'⟩ := h'
  rw [hev] at hev'
  cases hev'
  simp only [OutboxEvent.isPendingDispatch, Bool.and_eq_true, beq_iff_eq] at hp hp'
  exact hp.1.1.symm.trans hp'.1.1

section Apply

variable {db : Db} {k : Uuid}

theorem job_updateJob (id : Uuid) (st : JobStmt) :
    (Stmt.apply db (.updateJob id st)).job k =
      if k = id then (db.job id).map st.update.run else db.job k :=
  Table.find?_modify st.update.run_id k

/-- A count of rows after a statement that matched. -/
theorem count_updateJob {id : Uuid} {st : JobStmt} {row : Job} (hrow : db.job id = some row)
    (hguard : st.update.guard row = true) (q : Job → Bool) :
    (db.jobs.modify id st.update.run st.update.run_id).count q + (q row).toNat =
      db.jobs.count q + (q (st.update.set row)).toNat := by
  rw [Table.count_modify st.update.run_id hrow q, JobUpdate.run_of_guard hguard]

theorem event_updateEvent (id : Uuid) (st : EventStmt) :
    (Stmt.apply db (.updateEvent id st)).event k =
      if k = id then (db.event id).map st.update.run else db.event k :=
  Table.find?_modify st.update.run_id k

theorem job_insertJob {job : Job} (h : db.job job.id = none) :
    (Stmt.apply db (.insertJob job)).job k = if k = job.id then some job else db.job k :=
  Table.find?_insert h k

theorem event_insertEvent {ev : OutboxEvent} (h : db.event ev.id = none) :
    (Stmt.apply db (.insertEvent ev)).event k = if k = ev.id then some ev else db.event k :=
  Table.find?_insert h k

@[simp] theorem job_insertLog (log : JobLog) : (Stmt.apply db (.insertLog log)).job k = db.job k :=
  rfl

@[simp] theorem job_insertEvent (ev : OutboxEvent) :
    (Stmt.apply db (.insertEvent ev)).job k = db.job k := rfl

@[simp] theorem job_updateEvent (id : Uuid) (st : EventStmt) :
    (Stmt.apply db (.updateEvent id st)).job k = db.job k := rfl

@[simp] theorem event_insertJob (job : Job) :
    (Stmt.apply db (.insertJob job)).event k = db.event k := rfl

@[simp] theorem event_insertLog (log : JobLog) :
    (Stmt.apply db (.insertLog log)).event k = db.event k := rfl

@[simp] theorem event_updateJob (id : Uuid) (st : JobStmt) :
    (Stmt.apply db (.updateJob id st)).event k = db.event k := rfl

/-! ### Pending dispatches -/

theorem pending_insertEvent {ev : OutboxEvent} (h : db.event ev.id = none) (j : Uuid) :
    (Stmt.apply db (.insertEvent ev)).Pending j k ↔
      db.Pending j k ∨ (k = ev.id ∧ ev.isPendingDispatch j = true) := by
  unfold Db.Pending
  rw [event_insertEvent h]
  by_cases hk : k = ev.id
  · rw [if_pos hk, hk, h]
    simp
  · rw [if_neg hk]
    simp [hk]

theorem pending_markPublished (id : Uuid) (now : Datetime) (j : Uuid) :
    (Stmt.apply db (.updateEvent id (.markPublished now))).Pending j k ↔
    db.Pending j k ∧ k ≠ id := by
  unfold Db.Pending
  rw [event_updateEvent]
  by_cases hk : k = id
  · subst hk
    cases db.event k with
    | none => simp
    | some ev => simp [EventStmt.update, EventUpdate.run, markPublished,
        OutboxEvent.isPendingDispatch]
  · simp [hk]

theorem pending_recordPublishFailure (id : Uuid) (error : String) (next now : Datetime) (j : Uuid) :
    (Stmt.apply db (.updateEvent id (.recordPublishFailure error next now))).Pending j k ↔
      db.Pending j k := by
  unfold Db.Pending
  rw [event_updateEvent]
  by_cases hk : k = id
  · subst hk
    cases db.event k with
    | none => simp
    | some ev =>
      have hsame :
          ((EventStmt.recordPublishFailure error next now).update.run ev).isPendingDispatch j =
            ev.isPendingDispatch j := by
        unfold EventUpdate.run
        split <;> rfl
      simp [hsame]
  · simp [hk]

@[simp] theorem pending_insertJob (job : Job) (j : Uuid) :
    (Stmt.apply db (.insertJob job)).Pending j k ↔ db.Pending j k := Iff.rfl

@[simp] theorem pending_insertLog (log : JobLog) (j : Uuid) :
    (Stmt.apply db (.insertLog log)).Pending j k ↔ db.Pending j k := Iff.rfl

@[simp] theorem pending_updateJob (id : Uuid) (st : JobStmt) (j : Uuid) :
    (Stmt.apply db (.updateJob id st)).Pending j k ↔ db.Pending j k := Iff.rfl

@[simp] theorem users_apply (st : Stmt) : (Stmt.apply db st).users = db.users := by
  cases st <;> rfl

end Apply

@[simp] theorem Db.applyAll_nil (db : Db) : db.applyAll [] = db := rfl

@[simp] theorem Db.applyAll_cons (db : Db) (st : Stmt) (l : List Stmt) :
    db.applyAll (st :: l) = (st.apply db).applyAll l := rfl

theorem Db.applyAll_append (db : Db) (l₁ l₂ : List Stmt) :
    db.applyAll (l₁ ++ l₂) = (db.applyAll l₁).applyAll l₂ := List.foldl_append

@[simp] theorem Db.users_applyAll (db : Db) (l : List Stmt) : (db.applyAll l).users = db.users := by
  induction l generalizing db with
  | nil => rfl
  | cons st l ih => rw [Db.applyAll_cons, ih, users_apply]

end CloudJob
