import CloudJob.Lib.Rely
import CloudJob.Lifecycle.Rows
import CloudJob.Contract.Effects
import CloudJob.Contract.Rely

/-!
# `Contract/Protocol.lean` — the contract, and that every call keeps it

`Pre` lists what a program owes before each call, `Inv` what holds between any two steps. The two
that carry the weight:

* a **write** is made under the locks that protect what it changes — the row itself, but also the
job of an event that is inserted or published, and the owner of a job that starts to run — and it
uses only uuids its own process drew (`Ready`);
* a **commit** is a `Txn` of the life cycle in the state it commits in, and the message it uses up
is not needed any more (`SpendOk`).

`contract` assembles them into a `Protocol`. Its obligations are checked call by call here; that the
programs meet the preconditions is the rest of `Contract/`.
-/

set_option autoImplicit false

namespace CloudJob

open Lib

variable {P : Params} {s s' : Shared} {p q : Pid}

/-! ## What is owed -/

/-- A committed transaction inserted the event `ev`. -/
def Core.Inserts (c : Core) (ev : OutboxEvent) :
    Prop := ∃ en ∈ c.history, en.event = .stmt (.insertEvent ev)

/-- The time event `e` was inserted for has come, by some clock. -/
def Core.WasDue (P : Params) (c : Core) (e : Uuid) : Prop :=
  ∃ ev r, c.Inserts ev ∧ ev.id = e ∧ ev.availableAt ≤ r ∧ P.ReadBy c.clock r

/-- Some clock read `now` after the insertion of event `e`, and after the time it was inserted for
had come by another. -/
def Core.WasDueAt (P : Params) (c : Core) (e : Uuid) (now : Datetime) : Prop :=
  ∃ en ∈ c.history, ∃ ev r t t', en.event = .stmt (.insertEvent ev) ∧ ev.id = e ∧
    ev.availableAt ≤ r ∧ P.reads t r = true ∧ t ≤ t' ∧ en.clock ≤ t' ∧ P.reads t' now = true

/-- The worker that claimed as `token`, or recovery holding the job, which has expired. -/
def Closer (s : Shared) (p : Pid) (j token : Uuid) (now : Datetime) : Prop :=
  s.uuidOwner token = some p ∨ ((∃ settings, s.calls p = some (.recoverDueBatchOnce settings)) ∧
    s.locks (.job j) = some p ∧ ∃ row, s.core.db.job j = some row ∧ row.isExpired now = true)

/-- Who makes a job update, and on what ground. -/
def JobStmt.Entitled (P : Params) (s : Shared) (p : Pid) (j : Uuid) : JobStmt → Prop
  | .markRunning _ _ now _ => ∃ settings workerId m d,
      s.calls p = some (.handleMessage settings workerId m) ∧ m.body = .dispatch d ∧ d.jobId = j ∧
      s.core.WasDueAt P d.eventId now
  | .markCompleted token now | .markFailed token now _ | .requeueRunning token now _ =>
      Closer s p j token now
  | .markCancelled token _ => s.uuidOwner token = some p ∧ (P.handlerRegistry.Honest →
      ∀ row, s.core.db.job j = some row → row.executionToken = some token →
        row.cancelRequestedAt.isSome = true)
  | .cancelPendingOrQueued _ | .requestRunningCancellation _ => ∃ user row,
      s.calls p = some (.cancelJob user j) ∧ s.core.db.job j = some row ∧
      (user.role = .admin ∨ user.id = row.ownerId)
  | .markQueued _ | .markFailedWithoutExecution _ _ _ => True

/-- Who makes a write. -/
def Stmt.Entitled (P : Params) (s : Shared) (p : Pid) : Stmt → Prop
  | .updateJob j jst => jst.Entitled P s p j
  | .updateEvent e _ => s.core.WasDue P e
  | _ => True

/-- The statement is made under the locks that protect what it changes, with uuids of `p`. -/
structure Ready (P : Params) (s : Shared) (p : Pid) (st : Stmt) : Prop where
  dispatch : match st with
    | .insertEvent ev => s.locks (.job ev.aggregateId) = some p
    | .updateEvent e (.markPublished _) => ∀ ev, s.core.db.event e = some ev →
        s.locks (.job ev.aggregateId) = some p
    | _ => True
  owner : ∀ {j : Uuid} {jst : JobStmt}, st = .updateJob j jst → jst.issues.isSome = true →
    ∃ row, s.core.db.job j = some row ∧ s.locks (.user row.ownerId) = some p
  token : ∀ {j : Uuid} {jst : JobStmt} {token : Uuid}, st = .updateJob j jst →
    jst.issues = some token → s.uuidOwner token = some p
  fresh : ∀ {u : Uuid}, st.introduces = some u → s.uuidOwner u = some p
  blank : ∀ {job : Job}, st = .insertJob job → job.status = .pending ∧ job.executionToken = none
  reached : ∀ {j : Uuid} {status : JobStatus} {now : Datetime} {error : String},
    st ≠ .updateJob j (.markFailedWithoutExecution status now error)
  entitled : st.Entitled P s p

/-- A staged statement: ready, and its rows locked. -/
structure Owned (P : Params) (s : Shared) (p : Pid) (st : Stmt) : Prop extends Ready P s p st where
  rows : ∀ r ∈ st.rows, s.locks r = some p

/-- The first statement about its job in a transaction that has staged `l`. -/
def Stmt.First (st : Stmt) (l : List Stmt) : Prop :=
  ∀ j, .job j ∈ st.rows → ∀ st' ∈ l, LockRow.job j ∉ st'.rows

def Shared.HoldsNothing (s : Shared) (p : Pid) : Prop := ∀ r, s.locks r ≠ some p

/-- The message `p` handles is spent, or `p` holds its job and the job has no need of it in `db`. -/
def SpendOk (s : Shared) (p : Pid) (db : Db) : Prop :=
  ∀ m, s.handling p = some m → m.id ∈ s.core.spent ∨ ∃ j, m.IsFor j ∧ s.locks (.job j) = some p ∧
    ∀ row, db.job j = some row → row.status = .queued → ∃ e, db.Pending j e

/-- Where a transaction of a worker queues a job again, that is all it does, and the next dispatch
is due after the backoff of the attempt. -/
def Retried (c : Core) (l : List Stmt) : Prop :=
  ∀ j token now error, .updateJob j (.requeueRunning token now error) ∈ l →
    ∃ row delay ev log, c.db.job j = some row ∧
      RETRY_BACKOFF_SECONDS_BY_ATTEMPT.lookup row.attemptCount = some delay ∧
      Redispatch c j (now + seconds delay) ev ∧
      l = .updateJob j (.requeueRunning token now error) :: (ev ++ [.insertLog log])

/-- What `p` must have established before a call. -/
def Pre (P : Params) (p : Pid) : Op → Shared → Prop
  | .aenter, s => s.staged p = [] ∧ s.HoldsNothing p
  | .lockUser o, s => (s.HoldsNothing p ∧ (s.handling p).isSome = true) ∨
      ((∃ settings, s.calls p = some (.recoverDueBatchOnce settings)) ∧
        ∃ j row, s.locks (.job j) = some p ∧ s.core.db.job j = some row ∧ row.ownerId = o)
  | .lockExpiredJobs _ _, s => s.HoldsNothing p
  | .selectJobForUpdate j _, s => ((∀ r, s.locks r = some p → ∃ e, r = .event e) ∨
      ∀ r, s.locks r = some p → ∃ o, r = .user o) ∧
      (∀ settings, s.calls p ≠ some (.recoverDueBatchOnce settings)) ∧
      ∀ o, s.locks (.user o) = some p → ∃ m, s.handling p = some m ∧ m.IsFor j
  | .lockUnpublishedEvent _, s => s.staged p = [] ∧ s.HoldsNothing p ∧
      ∃ settings, s.calls p = some (.publishDueBatchOnce settings)
  | .write st, s => Ready P s p st ∧ ((∀ r ∈ st.rows, s.free p r = true) ∨ s.HoldsNothing p) ∧
      st.First (s.staged p) ∧ ∀ j settings, .job j ∈ st.rows →
        s.calls p = some (.recoverDueBatchOnce settings) → s.locks (.job j) = some p
  | .commit, s => Txn P s.core (s.staged p) ∧ SpendOk s p (s.view p) ∧
      ((s.handling p).isSome = true → Retried s.core (s.staged p))
  | .aexit false, s => SpendOk s p s.core.db
  | .publishDispatch m, s => (∃ settings, s.calls p = some (.publishDueBatchOnce settings)) ∧
      (s.core.db.job m.jobId).isSome = true ∧
      s.locks (.event m.eventId) = some p ∧ s.core.WasDue P m.eventId ∧
      ∃ ev, s.core.db.event m.eventId = some ev ∧ ev.publishedAt = none
  | .ack id, s => id ∈ s.core.spent
  | .reject id, s => ∃ m, s.handling p = some m ∧ m.id = id ∧ ∀ j, ¬ m.IsFor j
  | .startHandler j token, s => s.uuidOwner token = some p ∧ s.core.startedAs token = 0 ∧
      ∃ x ∈ s.core.committed, x.1 = j ∧ x.2.issues = some token
  | _, _ => True

/-- What holds between any two steps. -/
structure Inv (P : Params) (s : Shared) : Prop where
  lawful : Lawful P s.core
  staged : ∀ {q : Pid} {st : Stmt}, st ∈ s.staged q → Owned P s q st
  handled : ∀ {q : Pid} {m : Message}, s.handling q = some m →
    m.id < s.core.nextMsg ∧ ∀ m' ∈ s.core.broker, m'.id = m.id → m' = m
  tokens : ∀ {token : Uuid}, s.uuidOwner token = none → s.core.issued token = 0
  events : ∀ {e : Uuid}, s.uuidOwner e = none → s.core.db.event e = none
  eventLocks : ∀ {e : Uuid} {q : Pid}, s.locks (.event e) = some q →
    s.core.db.event e ≠ none ∨ s.uuidOwner e = some q
  available : ∀ {e : Uuid} {ev : OutboxEvent}, s.core.db.event e = some ev →
    s.core.WasDue P e ∨ ∃ ev₀, s.core.Inserts ev₀ ∧ ev₀.id = e ∧ ev₀.availableAt = ev.availableAt
  messages : ∀ {m : Message} {d : DispatchOutboxMessage}, m ∈ s.core.broker → m.body = .dispatch d →
    s.core.WasDue P d.eventId

/-! ## Grounds last -/

section Grounds

variable {c c' : Core} {e : Uuid}

theorem Core.Inserts.mono {ev : OutboxEvent} (h : c.Inserts ev) (hh : c.history <:+ c'.history) :
    c'.Inserts ev := by
  obtain ⟨en, hen, hev⟩ := h
  exact ⟨en, hh.subset hen, hev⟩

theorem Core.WasDue.mono (h : c.WasDue P e) (hclock : c.clock ≤ c'.clock)
    (hh : c.history <:+ c'.history) : c'.WasDue P e := by
  obtain ⟨ev, r, hev, hid, hle, hr⟩ := h
  exact ⟨ev, r, hev.mono hh, hid, hle, hr.mono hclock⟩

theorem Core.WasDueAt.mono {now : Datetime} (h : c.WasDueAt P e now)
    (hh : c.history <:+ c'.history) : c'.WasDueAt P e now := by
  obtain ⟨en, hen, hrest⟩ := h
  exact ⟨en, hh.subset hen, hrest⟩

theorem Core.WasDue.read (h : c.WasDue P e) (hlaw : Lawful P c) {t now : Datetime}
    (ht : c.clock ≤ t) (hr : P.reads t now = true) : c.WasDueAt P e now := by
  obtain ⟨ev, r, ⟨en, hen, hev⟩, hid, hle, t₀, ht₀, hr₀⟩ := h
  exact ⟨en, hen, ev, r, t₀, t, hev, hid, hle, hr₀, ht₀.trans ht,
    (hlaw.history_clock en hen).trans ht, hr⟩

theorem Closer.mono {j token : Uuid} {now : Datetime} (h : Closer s p j token now)
    (hcalls : s'.calls p = s.calls p) (hl : ∀ r, s.locks r = some p → s'.locks r = some p)
    (hu : ∀ u, s.uuidOwner u = some p → s'.uuidOwner u = some p)
    (hjob : s'.core.db.job j = s.core.db.job j) : Closer s' p j token now := by
  refine h.imp (hu token) ?_
  rintro ⟨hc, hlock, hrow⟩
  exact ⟨hcalls ▸ hc, hl _ hlock, hjob ▸ hrow⟩

/-- A statement keeps its ground as long as its job keeps its row. -/
theorem Stmt.Entitled.mono {st : Stmt} (h : st.Entitled P s p) (hcalls : s'.calls p = s.calls p)
    (hl : ∀ r, s.locks r = some p → s'.locks r = some p)
    (hu : ∀ u, s.uuidOwner u = some p → s'.uuidOwner u = some p)
    (hclock : s.core.clock ≤ s'.core.clock) (hh : s.core.history <:+ s'.core.history)
    (hjob : ∀ {j : Uuid} {jst : JobStmt}, st = .updateJob j jst →
      s'.core.db.job j = s.core.db.job j) : st.Entitled P s' p := by
  cases st with
  | updateJob j jst =>
    have hj := hjob rfl
    cases jst with
    | markRunning workerId token now lease =>
      obtain ⟨settings, workerId, m, d, hc, hm, hd, hdue⟩ := h
      exact ⟨settings, workerId, m, d, hcalls.trans hc, hm, hd, hdue.mono hh⟩
    | markCompleted token now => exact Closer.mono h hcalls hl hu hj
    | markFailed token now error => exact Closer.mono h hcalls hl hu hj
    | requeueRunning token now error => exact Closer.mono h hcalls hl hu hj
    | markCancelled token now => exact ⟨hu _ h.1, fun hp row hrow => h.2 hp row (hj ▸ hrow)⟩
    | cancelPendingOrQueued now =>
      obtain ⟨user, row, hc, hrow, ha⟩ := h
      exact ⟨user, row, hcalls.trans hc, hj.trans hrow, ha⟩
    | requestRunningCancellation now =>
      obtain ⟨user, row, hc, hrow, ha⟩ := h
      exact ⟨user, row, hcalls.trans hc, hj.trans hrow, ha⟩
    | markQueued now => trivial
    | markFailedWithoutExecution status now error => trivial
  | updateEvent e est => exact Core.WasDue.mono h hclock hh
  | insertJob job => trivial
  | insertLog log => trivial
  | insertEvent ev => trivial

end Grounds

/-! ## What a commit leaves to the others -/

section Commit

variable {l : List Stmt}

theorem ne_of_locks {r : LockRow} (hp : s.locks r = some p) (hq : s.locks r = some q) : q = p := by
  rw [hp] at hq
  exact (Option.some.inj hq).symm

/-- The rows a transaction of `p` writes are not those `q` holds. -/
theorem not_mem_rows (hst : ∀ st ∈ l, Owned P s p st) (hq : q ≠ p) {r : LockRow}
    (hr : s.locks r = some q) : ∀ st ∈ l, r ∉ st.rows :=
  fun st hm hmem => hq (ne_of_locks ((hst st hm).rows r hmem) hr)

theorem apart_of_owned (hst : ∀ st ∈ l, Owned P s p st) (hq : q ≠ p) {j : Uuid}
    (hj : s.locks (.job j) = some q) : ∀ st ∈ l, st.Apart s.core.db j := by
  intro st hm
  have hd := (hst st hm).dispatch
  cases st with
  | insertEvent ev =>
    rintro rfl
    exact hq (ne_of_locks hd hj)
  | updateEvent e est =>
    cases est with
    | recordPublishFailure => trivial
    | markPublished now =>
      rintro ev hev rfl
      exact hq (ne_of_locks (hd ev hev) hj)
  | insertJob => trivial
  | insertLog => trivial
  | updateJob => trivial

theorem sparesOwner_of_owned (hst : ∀ st ∈ l, Owned P s p st) (hq : q ≠ p) {o : Uuid}
    (ho : s.locks (.user o) = some q) : ∀ st ∈ l, st.SparesOwner s.core.db o := by
  intro st hm
  cases st with
  | updateJob j jst =>
    intro hi
    obtain ⟨row, hrow, hl⟩ := (hst _ hm).owner rfl hi
    refine ⟨row, hrow, ?_⟩
    rintro rfl
    exact hq (ne_of_locks hl ho)
  | insertJob job =>
    intro hr
    rw [((hst _ hm).blank rfl).1] at hr
    cases hr
  | insertLog => trivial
  | insertEvent => trivial
  | updateEvent => trivial

theorem sparesToken_of_owned (hst : ∀ st ∈ l, Owned P s p st) {u : Uuid}
    (hu : s.uuidOwner u ≠ some p) : ∀ st ∈ l, st.SparesToken u := by
  intro st hm
  cases st with
  | updateJob j jst => exact fun hi => hu ((hst _ hm).token rfl hi)
  | insertJob job => exact ((hst _ hm).blank rfl).2
  | insertLog => trivial
  | insertEvent => trivial
  | updateEvent => trivial

theorem Core.Extends.commit (c : Core) (p : Pid) (l : List Stmt) : c.Extends (c.commit p l) :=
  ⟨le_rfl, fun u hu => by rw [Core.commit_db, Db.users_applyAll]; exact hu,
    fun h => job_applyAll_stays h, fun h => event_applyAll_stays h, fun _ h => h,
    List.suffix_append _ _⟩

theorem Keeps.commit (hst : ∀ st ∈ l, Owned P s p st) (hq : q ≠ p) :
    Keeps (fun r => s.locks r = some q) s.core (s.core.commit p l) where
  toExtends := .commit _ _ _
  job hj := job_applyAll (not_mem_rows hst hq hj)
  event he := event_applyAll (not_mem_rows hst hq he)
  key hk hnone := jobByKey_applyAll_none (not_mem_rows hst hq hk) hnone
  pending hj _ := pending_applyAll (apart_of_owned hst hq hj)
  running ho := runningCount_applyAll_le (sparesOwner_of_owned hst hq ho)
  unspent _ h := h

theorem Core.issued_commit_of_spares {c : Core} {u : Uuid}
    (h : ∀ st ∈ l, st.SparesToken u) (p : Pid) : (c.commit p l).issued u = c.issued u := by
  rw [Core.issued, Core.committed_commit, List.countP_append, List.countP_reverse]
  have hzero : (l.filterMap Stmt.jobStmt).countP (fun x => x.2.issues == some u) = 0 := by
    refine List.countP_eq_zero.mpr fun x hx hi => ?_
    obtain ⟨st, hst, hjs⟩ := List.mem_filterMap.mp hx
    cases st with
    | updateJob j jst =>
      cases hjs
      exact h _ hst (by simpa using hi)
    | _ => cases hjs
  rw [hzero, Nat.zero_add]
  rfl

theorem Core.startedAs_commit (c : Core) (p : Pid) (l : List Stmt) (u : Uuid) :
    (c.commit p l).startedAs u = c.startedAs u := by
  have hzero : ((((l.map Event.stmt).map (Entry.mk p c.clock)).reverse)).countP
      (Entry.startsAs u) = 0 := by
    refine List.countP_eq_zero.mpr fun en hen => ?_
    rw [List.mem_reverse, List.map_map] at hen
    obtain ⟨st, -, rfl⟩ := List.mem_map.mp hen
    simp [Entry.startsAs]
  simp only [Core.startedAs, Core.commit, List.countP_append, hzero, Nat.zero_add]

theorem OwnKept.commit (hst : ∀ st ∈ l, Owned P s p st) {u : Uuid} (hu : s.uuidOwner u ≠ some p) :
    OwnKept u s.core (s.core.commit p l) where
  event he := event_applyAll_none (fun st hm hin => hu ((hst st hm).fresh hin)) he
  issued := Core.issued_commit_of_spares (sparesToken_of_owned hst hu) p
  started := Core.startedAs_commit _ _ _ _
  token hrow ht := token_applyAll (sparesToken_of_owned hst hu) hrow ht

end Commit

/-! ## Steps that leave the tables alone -/

/-- The jobs, the events and what the history says of them are the same. -/
structure SameTables (c c' : Core) : Prop where
  jobs : c'.db.jobs = c.db.jobs
  outbox : c'.db.outbox = c.db.outbox
  users : ∀ u ∈ c.db.users, u ∈ c'.db.users
  clock : c.clock ≤ c'.clock
  committed : c'.committed = c.committed
  history : c.history <:+ c'.history
  spent : ∀ id ∈ c.spent, id ∈ c'.spent

namespace SameTables

variable {c c' : Core} (h : SameTables c c')

include h

theorem job (j : Uuid) : c'.db.job j = c.db.job j := by rw [Db.job, h.jobs]; rfl

theorem event (e : Uuid) : c'.db.event e = c.db.event e := by rw [Db.event, h.outbox]; rfl

theorem pending (j e : Uuid) : c'.db.Pending j e ↔ c.db.Pending j e := by
  unfold Db.Pending
  rw [h.event]

end SameTables

theorem Keeps.of_sameTables {c c' : Core} {L : LockRow → Prop} (h : SameTables c c')
    (hu : ∀ {j : Uuid}, L (.job j) → c.Unspent j → c'.Unspent j) : Keeps L c c' where
  clock := h.clock
  users := h.users
  jobs {j row} hj := ⟨row, (h.job j).trans hj, rfl⟩
  events {e ev} he := ⟨ev, (h.event e).trans he, rfl, rfl⟩
  spent := h.spent
  history := h.history
  job {j} _ := h.job j
  event {e} _ := h.event e
  key _ hk := by rw [Db.jobByKey, h.jobs]; exact hk
  pending {j} _ e := h.pending j e
  running _ := by rw [Db.runningCount, h.jobs]; rfl
  unspent hl hun := hu hl hun

theorem OwnKept.of_sameTables {c c' : Core} {u : Uuid} (h : SameTables c c')
    (hs : c'.startedAs u = c.startedAs u) : OwnKept u c c' := by
  refine ⟨fun he => by rw [h.event]; exact he, ?_, hs, fun hrow ht => ?_⟩
  · rw [Core.issued, h.committed]
    rfl
  · rw [h.job] at hrow
    exact ⟨_, hrow, ht, rfl, id⟩

end CloudJob
