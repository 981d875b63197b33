import Mathlib.Data.Set.Insert
import CloudJob.Lib.Observer
import CloudJob.Contract.Soundness
import CloudJob.Contract.Staged
import CloudJob.Callers
import CloudJob.Api

/-!
# `Safety/Tenancy.lean` — what a tenant's process can write

A process that serves a user who is no admin uses two kinds of ids: those it drew itself, and those
of jobs that a query for the user's own jobs has found. Every row it writes has such an id, so that
no row of another user is among them, nor a log of one.

`tenant` reads this off the programs; `Tenancy` is what it says about the state.
-/

set_option autoImplicit false

namespace CloudJob

open Lib

/-! ## The ids a process knows -/

structure Known where
  /-- Found by a query for the user's jobs. -/
  seen : Set Uuid
  drawn : Set Uuid
  wrote : Prop

def Known.start : Known := ⟨∅, ∅, False⟩

def Known.has (g : Known) (id : Uuid) : Prop := id ∈ g.seen ∨ id ∈ g.drawn

/-- The statement is about rows of user `u`, or about new ones. -/
def Stmt.OfTenant (u : Uuid) (g : Known) : Stmt → Prop
  | .insertJob job => job.ownerId = u ∧ job.id ∈ g.drawn
  | .insertLog log => g.has log.jobId
  | .insertEvent ev => ev.id ∈ g.drawn
  | .updateJob id _ => g.has id
  | .updateEvent _ _ => False

def Known.see (g : Known) (id : Uuid) : Known := { g with seen := insert id g.seen }

def Known.draw (g : Known) (id : Uuid) : Known := { g with drawn := insert id g.drawn }

/-- What a process of user `u` asks for. `keys` are the keys of its reservations. -/
@[reducible] def tenant (u : Uuid) (keys : Set String) : Discipline sig where
  State := Known
  ok g o := match o with
    | .now | .uuid4 | .aenter | .commit | .rollback | .aexit _ => True
    | .redisInvalidate _ | .redisPublish _ => True
    | .selectJob id ownerId => ownerId = some u ∨ g.has id
    | .selectJobByKey ownerId _ => ownerId = u
    | .selectJobForUpdate _ ownerId => ownerId = some u
    | .write st => st.OfTenant u g
    | .reserve userId => userId = u
    | .releaseReservation r => r.key ∈ keys
    | _ => False
  may _ o r := match o, r with
    | .selectJob id ownerId, .ok (some job) => job.id = id ∧ ownerId.all (· == job.ownerId) = true
    | .selectJobForUpdate id ownerId, .ok (some job) =>
        job.id = id ∧ ownerId.all (· == job.ownerId) = true
    | .reserve _, .ok (some r) => r.key ∈ keys
    | _, _ => True
  next g o r := match o, r with
    | .uuid4, .ok id => g.draw id
    | .selectJob id (some _), .ok (some _) => g.see id
    | .selectJobForUpdate id (some _), .ok (some _) => g.see id
    | .write _, _ => { g with wrote := True }
    | _, _ => g

section Known

variable {u : Uuid} {g g' : Known} {id : Uuid} {st : Stmt}

/-- What is known stays known. -/
structure Known.Le (g g' : Known) : Prop where
  seen : g.seen ⊆ g'.seen
  drawn : g.drawn ⊆ g'.drawn

theorem Known.Le.has (h : g.Le g') (hid : g.has id) : g'.has id :=
  hid.imp (fun hs => h.seen hs) fun hd => h.drawn hd

theorem Known.le_see (g : Known) (id : Uuid) :
    g.Le (g.see id) := ⟨Set.subset_insert _ _, subset_rfl⟩

theorem Known.le_draw (g : Known) (id : Uuid) :
    g.Le (g.draw id) := ⟨subset_rfl, Set.subset_insert _ _⟩

theorem Stmt.OfTenant.mono (h : st.OfTenant u g) (hle : g.Le g') : st.OfTenant u g' := by
  cases st with
  | insertJob job => exact ⟨h.1, hle.drawn h.2⟩
  | insertLog log => exact hle.has h
  | insertEvent ev => exact hle.drawn h
  | updateJob id st => exact hle.has h
  | updateEvent id st => exact h

end Known

/-! ## The programs -/

section Programs

variable {u : CurrentUserDTO} {keys : Set String} {g : Known}

/-- Entering and leaving a unit of work teaches nothing. -/
theorem tenant_withUow {α : Type} {body : Code α} {R : Except Exc α → Known → Prop}
    (h : (tenant u.id keys).Obeys body R g) (henter : ∀ e, R (.error e) g)
    (hexit : ∀ a e g', R (.ok a) g' → R (.error e) g')
    (hraise : ∀ e e' g', R (.error e) g' → R (.error e') g') :
    (tenant u.id keys).Obeys (withUow body) R g := by
  refine .perform trivial (fun _ _ => .bind (.attempt (h.mono fun r g' hr => ?_))) fun e _ =>
    henter e
  cases r with
  | ok a => exact .perform trivial (fun _ _ => hr) fun e _ => hexit a e g' hr
  | error e => exact .perform trivial (fun _ _ => hr) fun e' _ => hraise e e' g' hr

/-- Without anything to say about the end. -/
theorem tenant_withUow_any {α : Type} {body : Code α}
    (h : (tenant u.id keys).Obeys body (fun _ _ => True) g) :
    (tenant u.id keys).Obeys (withUow body) (fun _ _ => True) g :=
  tenant_withUow h (fun _ => trivial) (fun _ _ _ _ => trivial) fun _ _ _ _ => trivial

/-- Redis is told whatever there is to tell. -/
theorem tenant_redis {α : Type} {m : Code α}
    (h : Prog.Asks (S := sig) (fun o => (∃ owner, o = .redisInvalidate owner) ∨
      ∃ ev, o = .redisPublish ev) m) :
    (tenant u.id keys).Obeys m (fun _ g' => g' = g) g := by
  have hasks : Prog.Asks (S := sig) (fun o => ∀ g', g' = g → (tenant u.id keys).ok g' o ∧
      ∀ r, (tenant u.id keys).next g' o r = g) m := by
    refine h.mono ?_
    rintro o (⟨owner, rfl⟩ | ⟨ev, rfl⟩) g' rfl
    · exact ⟨trivial, fun _ => rfl⟩
    · exact ⟨trivial, fun _ => rfl⟩
  exact Discipline.Obeys.of_asks (D := tenant u.id keys) (I := fun g' => g' = g) hasks rfl

theorem invalidateOwner_tenant (owner : Uuid) :
    (tenant u.id keys).Obeys (invalidateOwner owner) (fun _ g' => g' = g) g :=
  tenant_redis (.tryCatch (.perform (.inl ⟨owner, rfl⟩)) fun _ => trivial)

namespace JobService

theorem notifyPostCommit_tenant (job : JobPublicDTO) :
    (tenant u.id keys).Obeys (notifyPostCommit job) (fun _ g' => g' = g) g :=
  tenant_redis (.tryCatch (.bind (.tryCatch (.tryCatch (.perform (.inl ⟨_, rfl⟩)) fun _ => trivial)
    fun _ => trivial) fun _ => .tryCatch (.perform (.inr ⟨_, rfl⟩)) fun _ => trivial) fun _ =>
    trivial)

theorem insertJob_tenant (settings : Settings) (key : String) (type : JobType) (payload : Json)
    (hash : String) :
    (tenant u.id keys).Obeys (insertJob settings u key type payload hash) (fun _ _ => True) g := by
  unfold insertJob Jobs.createPendingJob JobLogs.createJobCreatedLog JobLogs.createSystemLog
    Outbox.createDispatchEvent uuid4 utcNow Prog.tryCatch
  simp only [Prog.bind_eq, Prog.pure_eq, Prog.bind_assoc, Prog.ret_bind]
  refine .perform trivial (fun id _ => ?_) fun _ _ => trivial
  refine .perform trivial (fun createdAt _ => ?_) fun _ _ => trivial
  refine .perform trivial (fun updatedAt _ => ?_) fun _ _ => trivial
  refine .bind (.attempt ⟨⟨rfl, Set.mem_insert _ _⟩, fun written _ => ?_⟩)
  cases written with
  | error e =>
    cases e with
    | integrity orig =>
      show (tenant u.id keys).Obeys ((if _ then _ else _ : Code Bool).bind _) _ _
      split
      · trivial
      · trivial
    | _ => trivial
  | ok written =>
    refine .perform trivial (fun at' _ => ?_) fun _ _ => trivial
    refine .perform (.inr (Set.mem_insert _ _)) (fun _ _ => ?_) fun _ _ => trivial
    refine .perform trivial (fun availableAt _ => ?_) fun _ _ => trivial
    refine .perform trivial (fun at' _ => ?_) fun _ _ => trivial
    refine .perform trivial (fun eventId _ => ?_) fun _ _ => trivial
    refine .perform (Set.mem_insert _ _) (fun _ _ => ?_) fun _ _ => trivial
    exact .perform trivial (fun _ _ => trivial) fun _ _ => trivial

theorem createJob_tenant (sha256 : String → String) (settings : Settings) (key : String)
    (type : JobType) (payload : Json) :
    (tenant u.id keys).Obeys (createJob sha256 settings u key type payload)
    (fun _ _ => True) g := by
  have hrelease : ∀ (r : Option CreateJobRateLimitReservationDTO)
    (m : Code (Option JobCreateResultDTO))
      (g' : Known), (∀ res ∈ r, res.key ∈ keys) →
      (∀ g', (tenant u.id keys).Obeys m (fun _ _ => True) g') →
      (tenant u.id keys).Obeys ((releaseReservation r).bind fun _ => m) (fun _ _ => True) g' := by
    intro r m g' hr hm
    cases r with
    | none => exact hm g'
    | some res => exact .perform (hr res rfl) (fun _ _ => hm _) fun _ _ => trivial
  unfold createJob Jobs.getByIdempotencyKey
  simp only [Prog.bind_eq, Prog.pure_eq, Prog.bind_assoc, Prog.ret_bind]
  refine .bind ((tenant_withUow_any ?_).mono fun result g' _ => ?_)
  · refine .perform rfl (fun existing _ => ?_) fun _ _ => trivial
    cases existing with
    | some job =>
      show (tenant u.id keys).Obeys ((validateExistingJob _ _).bind _) _ _
      unfold validateExistingJob
      split
      · trivial
      · trivial
    | none =>
      refine .perform rfl (fun reservation hmay => ?_) fun _ _ => trivial
      have hkeys : ∀ res ∈ reservation, res.key ∈ keys := by
        intro res hres
        cases hres
        exact hmay
      refine .bind (.attempt ((insertJob_tenant settings key type payload _).mono fun out g' _ =>
        ?_))
      cases out with
      | ok job =>
        refine .bind ((invalidateOwner_tenant u.id).mono fun out g' _ => ?_)
        cases out with
        | error e => trivial
        | ok a =>
          refine .bind ((notifyPostCommit_tenant (toJobPublicDto job)).mono fun out g' _ => ?_)
          cases out with
          | ok a => trivial
          | error e => trivial
      | error e => cases e with
        | duplicateJobIdempotencyKey =>
          exact hrelease reservation _ g' hkeys fun g' =>
            .perform trivial (fun _ _ => trivial) fun _ _ => trivial
        | _ => exact hrelease reservation _ g' hkeys fun _ => trivial
  · cases result with
    | error e => trivial
    | ok result => cases result with
      | some result => trivial
      | none =>
        unfold loadExistingJob Jobs.getByIdempotencyKey
        simp only [Prog.bind_eq, Prog.pure_eq, Prog.bind_assoc, Prog.ret_bind]
        refine .bind ((tenant_withUow_any ?_).mono fun out g'' _ => ?_)
        · refine .perform rfl (fun existing _ => ?_) fun _ _ => trivial
          cases existing with
          | none => trivial
          | some job =>
            show (tenant u.id keys).Obeys (validateExistingJob _ _) _ _
            unfold validateExistingJob
            split
            · trivial
            · trivial
        · cases out with
          | ok a => trivial
          | error e => trivial

theorem finishCancel_tenant {job : StoredJobDTO} {message : String} (hjob : g.has job.id) :
    (tenant u.id keys).Obeys (finishCancel job message) (fun _ _ => True) g := by
  unfold finishCancel JobLogs.createSystemLog utcNow loadExistingJobById Jobs.getById
  simp only [Prog.bind_eq, Prog.pure_eq, Prog.bind_assoc, Prog.ret_bind]
  refine .perform trivial (fun at' _ => ?_) fun _ _ => trivial
  refine .perform hjob (fun _ _ => ?_) fun _ _ => trivial
  refine .perform trivial (fun _ _ => ?_) fun _ _ => trivial
  refine .bind ((invalidateOwner_tenant job.ownerId).mono fun out g' hg' => ?_)
  cases out with
  | error e => trivial
  | ok a =>
    subst hg'
    refine .bind ((tenant_withUow_any ?_).mono fun out g' _ => ?_)
    · refine .perform (.inr hjob) (fun found _ => ?_) fun _ _ => trivial
      cases found with
      | none => trivial
      | some row => trivial
    · cases out with
      | error e => trivial
      | ok refreshed =>
        refine .bind ((notifyPostCommit_tenant refreshed).mono fun out g' _ => ?_)
        cases out with
        | ok a => trivial
        | error e => trivial

/-- Only a job of the user's is found. -/
theorem cancelJob_tenant (hu : u.role ≠ .admin) (jobId : Uuid) :
    (tenant u.id keys).Obeys (cancelJob u jobId) (fun _ _ => True) g := by
  have hbranch : ∀ {row : StoredJobDTO} {st : JobStmt} {message : String} {g' : Known},
    g'.has row.id →
      (tenant u.id keys).Obeys ((Jobs.update row.id st).bind fun done =>
        if done then finishCancel row message else .ret (toJobPublicDto row)) (fun _ _ =>
            True) g' := by
    intro row st message g' hrow
    refine .perform hrow (fun done _ => ?_) fun _ _ => trivial
    split
    · exact finishCancel_tenant hrow
    · trivial
  unfold cancelJob loadAuthorizedJobForUpdate utcNow
  rw [if_neg hu]
  unfold Jobs.getByIdForOwnerForUpdate
  simp only [Prog.bind_eq, Prog.pure_eq, Prog.bind_assoc, Prog.ret_bind]
  refine .perform trivial (fun now _ => tenant_withUow_any ?_) fun _ _ => trivial
  refine .perform rfl (fun found hmay => ?_) fun _ _ => trivial
  cases found with
  | none => trivial
  | some row =>
    have hseen : (g.see jobId).has (toStoredJobDto row).id := by
      show (g.see jobId).has row.id
      rw [hmay.1]
      exact .inl (Set.mem_insert _ _)
    show (tenant u.id keys).Obeys (if _ then _ else _) _ _
    split
    · exact hbranch hseen
    · split
      · exact hbranch hseen
      · split
        · trivial
        · trivial

end JobService

end Programs

/-! ## The rows of the others -/

/-- The jobs that are not of user `u`, and their logs, are as before. -/
structure Db.SparesOthers (u : Uuid) (db db' : Db) : Prop where
  jobs : ∀ id job, db.job id = some job → job.ownerId ≠ u → db'.job id = some job
  logs : ∀ id job, db.job id = some job → job.ownerId ≠ u → ∀ logId,
    db'.logsOf logId id = db.logsOf logId id

/-- No job of another user has one of the ids. -/
def Db.Cleared (u : Uuid) (g : Known) (db : Db) : Prop :=
  ∀ id, g.has id → ∀ job, db.job id = some job → job.ownerId = u

section Others

variable {u : Uuid} {g g' : Known} {db db' db'' : Db} {st : Stmt}

theorem Db.SparesOthers.refl (db : Db) : db.SparesOthers u db :=
    ⟨fun _ _ h _ => h, fun _ _ _ _ _ => rfl⟩

theorem Db.SparesOthers.trans (h : db.SparesOthers u db') (h' : db'.SparesOthers u db'') :
    db.SparesOthers u db'' where
  jobs id job hj hne := h'.jobs id job (h.jobs id job hj hne) hne
  logs id job hj hne logId :=
    (h'.logs id job (h.jobs id job hj hne) hne logId).trans (h.logs id job hj hne logId)

theorem logsOf_insertLog (db : Db) {log : JobLog} {id : Uuid} (logId : Nat → Nat)
    (h : log.jobId ≠ id) :
    (Stmt.apply db (.insertLog log)).logsOf logId id = db.logsOf logId id := by
  unfold Db.logsOf Db.logEntries
  simp only [Stmt.apply, List.zipIdx_append, List.map_append, List.filter_append]
  have hnone : ((List.map (fun x : JobLog × Nat =>
    (⟨logId x.2, x.1.jobId, x.1.attemptNumber, x.1.level,
      x.1.message, x.1.createdAt⟩ : JobLogEntryDTO)) ([log].zipIdx (0 + db.logs.length))).filter
        fun entry => entry.jobId == id) = [] := by
    simp [h]
  rw [hnone, List.append_nil]

/-- Only a log statement writes a log. -/
theorem logsOf_apply (db : Db) {id : Uuid} (logId : Nat → Nat) (h : ∀ log, st = .insertLog log →
    log.jobId ≠ id) : (st.apply db).logsOf logId id = db.logsOf logId id := by
  cases st with
  | insertLog log => exact logsOf_insertLog db logId (h log rfl)
  | _ => rfl

/-- **A statement of a tenant** leaves the others' rows alone, and clears nothing that was not
clear. -/
theorem Stmt.OfTenant.apply (h : st.OfTenant u g) (hc : db.Cleared u g) :
    db.SparesOthers u (st.apply db) ∧ (st.apply db).Cleared u g := by
  have hother : ∀ {id : Uuid} {job : Job}, db.job id = some job → job.ownerId ≠ u → ¬ g.has id :=
    fun hj hne hid => hne (hc _ hid _ hj)
  refine ⟨⟨fun id job hj hne => ?_, fun id job hj hne logId => ?_⟩, fun id hid job hj => ?_⟩
  · cases st with
    | insertJob job' =>
      rw [job_insertJob_of_ne]
      · exact hj
      · intro heq
        exact hother hj hne (heq ▸ .inr h.2)
    | updateJob id' jst =>
      rw [job_updateJob, if_neg]
      · exact hj
      · intro heq
        exact hother hj hne (heq ▸ h)
    | insertLog log => exact hj
    | insertEvent ev => exact hj
    | updateEvent id' est => exact h.elim
  · refine logsOf_apply db logId fun log heq hid => ?_
    subst heq
    exact hother hj hne (hid ▸ h)
  · cases st with
    | insertJob job' =>
      by_cases hnone : db.job job'.id = none
      · rw [job_insertJob hnone] at hj
        split at hj
        · cases hj
          exact h.1
        · exact hc id hid job hj
      · rw [insertJob_of_isSome hnone] at hj
        exact hc id hid job hj
    | updateJob id' jst =>
      rw [job_updateJob] at hj
      split at hj
      · rename_i heq
        obtain ⟨row, hrow, rfl⟩ := Option.map_eq_some_iff.mp hj
        have howner : (jst.update.run row).ownerId = row.ownerId :=
          congrArg JobIdentity.ownerId (jst.update.run_identity row)
        rw [howner]
        exact hc id' h row hrow
      · exact hc id hid job hj
    | insertLog log => exact hc id hid job hj
    | insertEvent ev => exact hc id hid job hj
    | updateEvent id' est => exact h.elim

/-- So do several. -/
theorem Db.Cleared.applyAll : ∀ {l : List Stmt} {db : Db}, db.Cleared u g →
    (∀ st ∈ l, st.OfTenant u g) →
    db.SparesOthers u (db.applyAll l) ∧ (db.applyAll l).Cleared u g := by
  intro l
  induction l with
  | nil =>
    intro db hc _
    exact ⟨.refl db, hc⟩
  | cons st l ih =>
    intro db hc hl
    obtain ⟨hspares, hcleared⟩ := (hl st List.mem_cons_self).apply hc
    obtain ⟨hspares', hcleared'⟩ := ih hcleared fun st' hst' => hl st' (List.mem_cons_of_mem _ hst')
    exact ⟨hspares.trans hspares', hcleared'⟩

end Others

/-! ## A process of a tenant -/

/-- What process `p` of user `u` knows is of no other user, and so is what it has staged. -/
structure Tenancy (u : Uuid) (p : Pid) (g : Known) (s : Shared) : Prop where
  cleared : s.core.db.Cleared u g
  placed : ∀ id ∈ g.seen, (s.core.db.job id).isSome = true ∨ id ∈ g.drawn
  staged : ∀ st ∈ s.staged p, st.OfTenant u g
  drawn : ∀ id ∈ g.drawn, s.uuidOwner id = some p

/-- Every job has an id that somebody drew. -/
def Shared.Born (s : Shared) : Prop := ∀ id, s.uuidOwner id = none → s.core.db.job id = none

section Step

variable {P : Params} {u : Uuid} {keys : Set String} {p : Pid} {g : Known} {o : Op} {ch : Choice}
  {s s' : Shared}

/-- The calls that read or note something, or wait for it. -/
def Op.reads : Op → Bool
  | .now | .aenter | .selectJob _ _ | .selectJobByKey _ _ | .selectJobForUpdate _ _ | .reserve _
  | .releaseReservation _ | .redisInvalidate _ | .redisPublish _ => true
  | _ => false

/-- Nothing a statement can see comes of them. -/
structure Shared.SameTables (s s' : Shared) : Prop where
  db : s'.core.db = s.core.db
  staged : s'.staged = s.staged
  uuidOwner : s'.uuidOwner = s.uuidOwner
  clock : s'.core.clock = s.core.clock

theorem exec_reads {r : Except Exc o.Ret} (ho : o.reads = true)
    (he : s.exec P.reads p o ch = some (r, s')) : s.SameTables s' := by
  have hrefl : s.SameTables s := ⟨rfl, rfl, rfl, rfl⟩
  cases ch with
  | answer =>
    cases o with
    | now => cases he
    | reserve userId => cases he
    | selectJobForUpdate id ownerId =>
      simp only [Shared.exec, Shared.answer] at he
      split at he
      · cases he
        exact hrefl
      · split at he
        · cases he
          exact ⟨rfl, rfl, rfl, rfl⟩
        · cases he
    | aenter => cases he; exact hrefl
    | selectJob id ownerId => cases he; exact hrefl
    | selectJobByKey ownerId key => cases he; exact hrefl
    | releaseReservation res => cases he; exact hrefl
    | redisInvalidate ownerId => cases he; exact ⟨rfl, rfl, rfl, rfl⟩
    | redisPublish ev => cases he; exact ⟨rfl, rfl, rfl, rfl⟩
    | _ => cases ho
  | fails text =>
    obtain ⟨e, -, heq⟩ := Option.map_eq_some_iff.mp he
    cases heq
    cases o with
    | rollback => cases ho
    | aexit raised => cases ho
    | _ => exact hrefl
  | failsAfter text =>
    cases o with
    | commit => cases ho
    | publishDispatch m => cases ho
    | _ => cases he
  | time t =>
    cases o with
    | now =>
      simp only [Shared.exec] at he
      split at he
      · cases he
        exact hrefl
      · cases he
    | _ => cases he
  | uuid x =>
    cases o with
    | uuid4 => cases ho
    | _ => cases he
  | reservation res =>
    cases o with
    | reserve userId => cases he; exact hrefl
    | _ => cases he

theorem exec_uuid4 {r : Except Exc Uuid} (he : s.exec P.reads p .uuid4 ch = some (r, s')) :
    ∃ id, r = .ok id ∧ s.uuidOwner id = none ∧
      s' = { s with uuidOwner := Function.update s.uuidOwner id (some p) } := by
  cases ch with
  | uuid id =>
    simp only [Shared.exec] at he
    split at he
    · cases he
      exact ⟨id, rfl, ‹_›, rfl⟩
    · cases he
  | _ => cases he

/-- What a query for one job answers is the row it sees. -/
theorem exec_selectJob {id : Uuid} {ownerId : Option Uuid} {job : Job}
    (he : s.exec P.reads p (.selectJob id ownerId) ch = some (.ok (some job), s') ∨
      s.exec P.reads p (.selectJobForUpdate id ownerId) ch = some (.ok (some job), s')) :
    (s.view p).job id = some job ∧ ownerId.all (· == job.ownerId) = true := by
  rcases he with he | he
  · cases ch with
    | answer =>
      simp only [Shared.exec, Shared.answer, Option.some.injEq, Prod.mk.injEq,
        Except.ok.injEq] at he
      exact Option.filter_eq_some_iff.mp he.1
    | fails text => cases he
    | _ => cases he
  · cases ch with
    | answer =>
      simp only [Shared.exec, Shared.answer] at he
      split at he
      · cases he
      · rename_i row hrow
        split at he
        · cases he
          exact Option.filter_eq_some_iff.mp hrow
        · cases he
    | fails text => cases he
    | _ => cases he

theorem exec_write_core {st : Stmt} {r : Except Exc Bool}
    (he : s.exec P.reads p (.write st) ch = some (r, s')) :
    s'.core = s.core ∧ s'.uuidOwner = s.uuidOwner := by
  cases ch with
  | answer =>
    simp only [Shared.exec, Shared.answer] at he
    split at he
    · cases he
      exact ⟨rfl, rfl⟩
    · cases he
      exact ⟨rfl, rfl⟩
    · split at he
      · cases he
        exact ⟨rfl, rfl⟩
      · cases he
  | fails text =>
    cases he
    exact ⟨rfl, rfl⟩
  | _ => cases he

theorem Shared.spend_tables (s : Shared) (p : Pid) : (s.spend p).core.db = s.core.db ∧
    (s.spend p).staged = s.staged ∧ (s.spend p).uuidOwner = s.uuidOwner ∧
      (s.spend p).core.clock = s.core.clock := by
  rcases s.spend_cases p with hs | ⟨m, -, hs⟩ <;> rw [hs] <;> exact ⟨rfl, rfl, rfl, rfl⟩

/-- A commit takes effect unless it fails without one. -/
theorem exec_commit {r : Except Exc Unit} (he : s.exec P.reads p .commit ch = some (r, s')) :
    (s'.uuidOwner = s.uuidOwner ∧ s'.core.clock = s.core.clock) ∧
      ((∃ text, ch = .fails text ∧ s' = s) ∨
        ((∀ text, ch ≠ .fails text) ∧ s'.core.db = s.view p ∧ s'.staged p = [])) := by
  cases ch with
  | answer =>
    cases he
    obtain ⟨hdb, hstaged, huuid, hclock⟩ :=
      Shared.spend_tables (Shared.release { s with core := s.core.commit p (s.staged p) } p) p
    refine ⟨⟨huuid, hclock⟩, .inr ⟨fun _ => Choice.noConfusion, hdb, ?_⟩⟩
    rw [hstaged]
    exact Shared.staged_release_self
  | fails text =>
    cases he
    exact ⟨⟨rfl, rfl⟩, .inl ⟨text, rfl, rfl⟩⟩
  | failsAfter text =>
    cases he
    exact ⟨⟨rfl, rfl⟩, .inr ⟨fun _ => Choice.noConfusion, rfl, Shared.staged_release_self⟩⟩
  | _ => cases he

/-- Leaving a transaction. -/
theorem exec_leave {r : Except Exc o.Ret} (ho : o = .rollback ∨ ∃ raised, o = .aexit raised)
    (he : s.exec P.reads p o ch = some (r, s')) :
    (s'.uuidOwner = s.uuidOwner ∧ s'.core.clock = s.core.clock) ∧ s'.core.db = s.core.db ∧
    s'.staged p = [] := by
  rcases ho with rfl | ⟨raised, rfl⟩
  · rw [exec_rollback he]
    exact ⟨⟨rfl, rfl⟩, rfl, Shared.staged_release_self⟩
  · have hstaged := exec_aexit he
    cases ch with
    | answer =>
      cases raised with
      | true => cases he; exact ⟨⟨rfl, rfl⟩, rfl, hstaged⟩
      | false =>
        cases he
        obtain ⟨hdb, -, huuid, hclock⟩ := Shared.spend_tables (s.release p) p
        exact ⟨⟨huuid, hclock⟩, hdb, hstaged⟩
    | fails text => cases he; exact ⟨⟨rfl, rfl⟩, rfl, hstaged⟩
    | _ => cases he

theorem Tenancy.view (h : Tenancy u p g s) : (s.view p).Cleared u g :=
  (h.cleared.applyAll h.staged).2

/-- Knowing more that is clear and that was drawn. -/
theorem Tenancy.learn {g' : Known} (h : Tenancy u p g s) (hle : g.Le g') (hs : s.SameTables s')
    (hc : s.core.db.Cleared u g')
    (hp : ∀ id ∈ g'.seen, (s.core.db.job id).isSome = true ∨ id ∈ g'.drawn)
    (hd : ∀ id ∈ g'.drawn, s.uuidOwner id = some p) : Tenancy u p g' s' where
  cleared := hs.db ▸ hc
  placed id hid := hs.db ▸ hp id hid
  staged st hst := (h.staged st (hs.staged ▸ hst)).mono hle
  drawn id hid := hs.uuidOwner ▸ hd id hid

/-- A job that is found is nobody else's, in the database as in the transaction. -/
theorem Tenancy.see (h : Tenancy u p g s) {id : Uuid} {job : Job}
    (hjob : (s.view p).job id = some job)
    (howner : job.ownerId = u) : s.core.db.Cleared u (g.see id) := by
  intro id' hid job' hjob'
  rcases hid with hid | hid
  · rcases Set.mem_insert_iff.mp hid with rfl | hid
    · obtain ⟨row, hrow, hsame⟩ := job_applyAll_stays (l := s.staged p) hjob'
      have hrow : (s.view p).job id' = some row := hrow
      rw [hjob] at hrow
      cases hrow
      exact (congrArg JobIdentity.ownerId hsame).symm.trans howner
    · exact h.cleared id' (.inl hid) job' hjob'
  · exact h.cleared id' (.inr hid) job' hjob'

/-- And it is in the database, or the process drew its id. -/
theorem Tenancy.see_placed (h : Tenancy u p g s) {id : Uuid} {job : Job}
    (hjob : (s.view p).job id = some job) :
    ∀ id' ∈ (g.see id).seen, (s.core.db.job id').isSome = true ∨ id' ∈ (g.see id).drawn := by
  intro id' hid
  rcases Set.mem_insert_iff.mp hid with rfl | hid
  · by_contra hno
    obtain ⟨hnone, hdrawn⟩ := not_or.mp hno
    have hview : (s.view p).job id' = none := by
      refine job_applyAll_none (fun st hst hnew => hdrawn ?_)
        (Option.not_isSome_iff_eq_none.mp hnone)
      have hof := h.staged st hst
      cases st with
      | insertJob job => cases hnew; exact hof.2
      | insertEvent ev => cases hnew; exact hof
      | _ => cases hnew
    rw [hview] at hjob
    cases hjob
  · exact h.placed id' hid

/-- A process begins with nothing. -/
theorem Tenancy.start (h : s.staged p = []) : Tenancy u p .start s where
  cleared id hid := by
    rcases hid with hid | hid
    · exact absurd hid (Set.notMem_empty id)
    · exact absurd hid (Set.notMem_empty id)
  placed id hid := absurd hid (Set.notMem_empty id)
  staged st hst := by
    rw [h] at hst
    cases hst
  drawn id hid := absurd hid (Set.notMem_empty id)

/-- **One call** of the process writes to no row of another user, and teaches it ids that are
clear. -/
theorem Tenancy.own {r : Except Exc o.Ret} (h : Tenancy u p g s) (hb : s.Born)
    (hok : (tenant u keys).ok g o) (he : s.exec P.reads p o ch = some (r, s')) :
    Tenancy u p ((tenant u keys).next g o r) s' ∧
    s.core.db.SparesOthers u s'.core.db ∧ s'.Born := by
  have hreads : o.reads = true → (tenant u keys).next g o r = g →
      Tenancy u p ((tenant u keys).next g o r) s' ∧
      s.core.db.SparesOthers u s'.core.db ∧ s'.Born := by
    intro ho hnext
    have hs := exec_reads ho he
    rw [hnext, hs.db]
    refine ⟨h.learn ⟨subset_rfl, subset_rfl⟩ hs h.cleared h.placed h.drawn, .refl _,
      fun id hid => ?_⟩
    rw [hs.db]
    exact hb id (hs.uuidOwner ▸ hid)
  have hsees : ∀ {id : Uuid}, o.reads = true → (tenant u keys).next g o r = g.see id →
      s.core.db.Cleared u (g.see id) →
      (∀ id' ∈ (g.see id).seen, (s.core.db.job id').isSome = true ∨ id' ∈ (g.see id).drawn) →
      Tenancy u p ((tenant u keys).next g o r) s' ∧
      s.core.db.SparesOthers u s'.core.db ∧ s'.Born := by
    intro id ho hnext hc hp
    have hs := exec_reads ho he
    rw [hnext, hs.db]
    refine ⟨h.learn (g.le_see id) hs hc hp h.drawn, .refl _, fun id' hid => ?_⟩
    rw [hs.db]
    exact hb id' (hs.uuidOwner ▸ hid)
  have hleaves : (o = .rollback ∨ ∃ raised, o = .aexit raised) → (tenant u keys).next g o r = g →
      Tenancy u p ((tenant u keys).next g o r) s' ∧
      s.core.db.SparesOthers u s'.core.db ∧ s'.Born := by
    intro ho hnext
    obtain ⟨⟨huuid, -⟩, hdb, hstaged⟩ := exec_leave ho he
    rw [hnext, hdb]
    refine ⟨⟨hdb ▸ h.cleared, hdb ▸ h.placed, fun st hst => ?_, fun id hid => huuid ▸
      h.drawn id hid⟩,
      .refl _, fun id hid => ?_⟩
    · rw [hstaged] at hst
      cases hst
    · rw [hdb]
      exact hb id (huuid ▸ hid)
  cases o with
  | uuid4 =>
    obtain ⟨id, rfl, hnone, rfl⟩ := exec_uuid4 he
    refine ⟨⟨fun id' hid job hj => ?_, fun id' hid =>
      (h.placed id' hid).imp_right (Set.mem_insert_of_mem _),
      fun st hst => (h.staged st hst).mono (g.le_draw id), fun id' hid => ?_⟩, .refl _,
      fun id' hid => ?_⟩
    · rcases hid with hid | hid
      · exact h.cleared id' (.inl hid) job hj
      · rcases Set.mem_insert_iff.mp hid with rfl | hid
        · rw [hb id' hnone] at hj
          cases hj
        · exact h.cleared id' (.inr hid) job hj
    · rcases Set.mem_insert_iff.mp hid with rfl | hid
      · exact Function.update_self ..
      · refine (Function.update_of_ne (fun heq => ?_) ..).trans (h.drawn id' hid)
        rw [← heq, h.drawn id' hid] at hnone
        cases hnone
    · dsimp only at hid
      by_cases heq : id' = id
      · subst heq
        rw [Function.update_self] at hid
        cases hid
      · rw [Function.update_of_ne heq] at hid
        exact hb id' hid
  | selectJob id ownerId => cases ownerId with
    | none => exact hreads rfl rfl
    | some o' => cases r with
      | error e => exact hreads rfl rfl
      | ok job => cases job with
        | none => exact hreads rfl rfl
        | some job =>
          obtain ⟨hjob, howner⟩ := exec_selectJob (.inl he)
          have howner : o' = job.ownerId := by simpa using howner
          refine hsees rfl rfl ?_ (h.see_placed hjob)
          rcases hok with hu | hid
          · exact h.see hjob (howner.symm.trans (Option.some.inj hu))
          · -- it was known before
            rintro id' (hid' | hid') job' hjob'
            · rcases Set.mem_insert_iff.mp hid' with rfl | hid'
              · exact h.cleared id' hid job' hjob'
              · exact h.cleared id' (.inl hid') job' hjob'
            · exact h.cleared id' (.inr hid') job' hjob'
  | selectJobForUpdate id ownerId => cases ownerId with
    | none => exact hreads rfl rfl
    | some o' => cases r with
      | error e => exact hreads rfl rfl
      | ok job => cases job with
        | none => exact hreads rfl rfl
        | some job =>
          obtain ⟨hjob, howner⟩ := exec_selectJob (.inr he)
          have howner : o' = job.ownerId := by simpa using howner
          exact hsees rfl rfl (h.see hjob (howner.symm.trans (Option.some.inj hok)))
            (h.see_placed hjob)
  | write st =>
    obtain ⟨hcore, huuid⟩ := exec_write_core he
    rw [hcore]
    refine ⟨⟨hcore ▸ h.cleared, hcore ▸ h.placed, fun st' hst' => ?_, fun id hid => huuid ▸
      h.drawn id hid⟩,
      .refl _, fun id hid => ?_⟩
    · rcases exec_write_cases he with ⟨-, hstaged⟩ | ⟨-, hstaged⟩
      · rw [hstaged] at hst'
        rcases List.mem_append.mp hst' with hst' | hst'
        · exact (h.staged st' hst').mono ⟨subset_rfl, subset_rfl⟩
        · rw [List.mem_singleton.mp hst']
          exact Stmt.OfTenant.mono hok ⟨subset_rfl, subset_rfl⟩
      · rw [hstaged] at hst'
        exact (h.staged st' hst').mono ⟨subset_rfl, subset_rfl⟩
    · rw [hcore]
      exact hb id (huuid ▸ hid)
  | commit =>
    obtain ⟨⟨huuid, -⟩, ⟨text, -, rfl⟩ | ⟨-, hdb, hstaged⟩⟩ := exec_commit he
    · exact ⟨h, .refl _, hb⟩
    · rw [hdb]
      refine ⟨⟨hdb ▸ h.view, fun id hid => (h.placed id hid).imp_left fun hsome =>
        ?_, fun st hst => ?_,
        fun id hid => huuid ▸ h.drawn id hid⟩, (h.cleared.applyAll h.staged).1, fun id hid => ?_⟩
      · obtain ⟨job, hjob⟩ := Option.isSome_iff_exists.mp hsome
        obtain ⟨row, hrow, -⟩ := job_applyAll_stays (l := s.staged p) hjob
        rw [hdb]
        exact Option.isSome_iff_exists.mpr ⟨row, hrow⟩
      · rw [hstaged] at hst
        cases hst
      · rw [hdb]
        refine job_applyAll_none (fun st hst hnew => ?_) (hb id (huuid ▸ hid))
        have hof := h.staged st hst
        rw [huuid] at hid
        cases st with
        | insertJob job =>
          cases hnew
          rw [h.drawn _ hof.2] at hid
          cases hid
        | insertEvent ev =>
          cases hnew
          rw [h.drawn _ hof] at hid
          cases hid
        | _ => cases hnew
  | rollback => exact hleaves (.inl rfl) rfl
  | aexit raised => exact hleaves (.inr ⟨raised, rfl⟩) rfl
  | now => exact hreads rfl rfl
  | aenter => exact hreads rfl rfl
  | selectJobByKey ownerId key => exact hreads rfl rfl
  | reserve userId => exact hreads rfl rfl
  | releaseReservation res => exact hreads rfl rfl
  | redisInvalidate ownerId => exact hreads rfl rfl
  | redisPublish ev => exact hreads rfl rfl
  | _ => exact hok.elim

end Step

/-! ## Along a run -/

/-- The operation serves `user`. -/
def Call.Serves (user : CurrentUserDTO) : Call → Prop
  | .createJob _ user' _ _ _ => user' = user
  | .cancelJob user' _ => user' = user
  | _ => False

theorem Call.prog_tenant (P : Params) {user : CurrentUserDTO} (hu : user.role ≠ .admin)
    {keys : Set String} {c : Call} (hc : c.Serves user) :
    (tenant user.id keys).Obeys (c.prog P) (fun _ _ => True) .start := by
  cases c with
  | createJob settings user' key type payload =>
    cases hc
    refine .bind ((JobService.createJob_tenant P.sha256 settings key type payload).mono fun r g _ =>
      ?_)
    cases r <;> trivial
  | cancelJob user' jobId =>
    cases hc
    refine .bind ((JobService.cancelJob_tenant hu jobId).mono fun r g _ => ?_)
    cases r <;> trivial
  | _ => exact hc.elim

section Run

variable {P : Params} {w w' : World (machine P)} {mv : Move (machine P)} {user : CurrentUserDTO}
  {σ : Pid → Known}

/-- A statement that was not committed by `p` introduces nothing that `p` drew. -/
theorem Reachable.job_none (h : Reachable P w) (hs : (machine P).step mv w = some w') {id : Uuid}
    (hid : ∀ q, mv.pid = some q → w.shared.uuidOwner id ≠ some q)
    (hnone : w.shared.core.db.job id = none) : w'.shared.core.db.job id = none := by
  rcases h.commits hs with hq | ⟨q, ch, op, k, rfl, -, -, hdb, -⟩
  · rw [Db.job, hq.jobs]
    exact hnone
  · rw [hdb]
    exact job_applyAll_none (fun st hst hnew => hid q rfl ((h.inv.staged hst).fresh hnew)) hnone

theorem Reachable.born (h : Reachable P w) : w.shared.Born := by
  have hinit : (World.init P).shared.Born := fun _ _ => rfl
  induction h with
  | refl => exact hinit
  | @tail w₁ w₂ mv hreach _ hs ih =>
    intro id hid
    have hbefore : w₁.shared.uuidOwner id = none := by
      cases ho : w₁.shared.uuidOwner id with
      | none => rfl
      | some q =>
        rw [step_uuidOwner hs ho] at hid
        cases hid
    refine Reachable.job_none hreach hs (fun q _ => ?_) (ih id hbefore)
    rw [hbefore]
    exact nofun

/-- Where `σ` says what each process knows, a process of the user's is as it says. -/
structure Tenants (user : CurrentUserDTO) (w : World (machine P)) (σ : Pid → Known) : Prop where
  follows : (tenant user.id Set.univ).Follows (Call.Serves user) w σ
  tenancy : ∀ p c prog, w.procs p = some (c, prog) → c.Serves user →
    Tenancy user.id p (σ p) w.shared

/-- A step of someone else leaves a tenant's process as it is. -/
theorem Tenancy.other {p : Pid} {g : Known} (h : Tenancy user.id p g w.shared) (hw : Reachable P w)
    (hs : (machine P).step mv w = some w') (hp : mv.pid ≠ some p) :
    Tenancy user.id p g w'.shared where
  cleared id hid job hj := by
    cases hold : w.shared.core.db.job id with
    | some row =>
      obtain ⟨row', hrow', hsame⟩ := (hw.extends hs).jobs hold
      rw [hrow'] at hj
      cases hj
      exact (congrArg JobIdentity.ownerId hsame).trans (h.cleared id hid row hold)
    | none =>
      have hdrawn : id ∈ g.drawn := by
        rcases hid with hid | hid
        · rcases h.placed id hid with hsome | hid
          · rw [hold] at hsome
            cases hsome
          · exact hid
        · exact hid
      have hnone := hw.job_none hs (fun q hq heq => hp (by
        rw [h.drawn id hdrawn] at heq
        rw [hq, Option.some.inj heq])) hold
      rw [hnone] at hj
      cases hj
  placed id hid := by
    refine (h.placed id hid).imp_left fun hsome => ?_
    obtain ⟨row, hrow⟩ := Option.isSome_iff_exists.mp hsome
    obtain ⟨row', hrow', -⟩ := (hw.extends hs).jobs hrow
    exact Option.isSome_iff_exists.mpr ⟨row', hrow'⟩
  staged st hst := h.staged st (step_staged_other hs hp ▸ hst)
  drawn id hid := step_uuidOwner hs (h.drawn id hid)

/-- What a query for one job answers, the discipline expects. -/
theorem tenant_may {u : Uuid} {g : Known} {p : Pid} {o : Op} {ch : Choice} {s s' : Shared}
    {r : Except Exc o.Ret}
    (he : s.exec P.reads p o ch = some (r, s')) : (tenant u Set.univ).may g o r := by
  cases o with
  | selectJob id ownerId => cases r with
    | error e => trivial
    | ok job => cases job with
      | none => trivial
      | some job =>
        obtain ⟨hjob, howner⟩ := exec_selectJob (.inl he)
        exact ⟨Db.job_id hjob, howner⟩
  | selectJobForUpdate id ownerId => cases r with
    | error e => trivial
    | ok job => cases job with
      | none => trivial
      | some job =>
        obtain ⟨hjob, howner⟩ := exec_selectJob (.inr he)
        exact ⟨Db.job_id hjob, howner⟩
  | reserve userId => cases r with
    | error e => trivial
    | ok res => cases res with
      | none => trivial
      | some res => trivial
  | _ => trivial

theorem Tenants.step (h : Tenants user w σ) (hu : user.role ≠ .admin) (hw : Reachable P w)
    (hs : (machine P).step mv w = some w') :
    Tenants user w' ((tenant user.id Set.univ).track .start w mv w' σ) := by
  refine ⟨h.follows.step (fun c hc => Call.prog_tenant P hu hc) hs
    fun p ch c o k r s _ _ _ he => tenant_may he, fun q c prog hq hc => ?_⟩
  by_cases hpid : mv.pid = some q
  · rcases Machine.step_cases hs with ⟨p, c', s, rfl, -, hst, rfl⟩ |
      ⟨p, ch, c', o, k, r, s, rfl, hp, he, rfl⟩ | ⟨p, c', prog', rfl, hp, rfl⟩ | ⟨e, s, rfl, -, rfl⟩
    · cases hpid
      simp only [Discipline.track, Function.update_self]
      exact .start (start_staged hst)
    · cases hpid
      simp only [Function.update_self, Option.some.injEq, Prod.mk.injEq] at hq
      obtain ⟨rfl, -⟩ := hq
      rw [Discipline.track_run hp he, Function.update_self]
      exact ((h.tenancy q c' _ hp hc).own hw.born (h.follows.ok hp hc) he).1
    · cases hpid
      simp only [Discipline.track, Function.update_self]
      exact .start Shared.staged_release_self
    · cases hpid
  · rw [Discipline.track_other hpid]
    rw [Machine.step_procs_other hs hpid] at hq
    exact (h.tenancy q c prog hq hc).other hw hs hpid

theorem Reachable.tenants (h : Reachable P w) (hu : user.role ≠ .admin) :
    ∃ σ, Tenants user w σ := by
  have hinit : Tenants user (World.init P) fun _ => .start := by
    refine ⟨fun p c prog hp => ?_, fun p c prog hp => ?_⟩
    · cases hp
    · cases hp
  induction h with
  | refl => exact ⟨_, hinit⟩
  | tail mv hreach _ hs ih =>
    obtain ⟨σ, hσ⟩ := ih
    exact ⟨_, hσ.step hu hreach hs⟩

/-- **Among all the others**, a step of a process that serves a user who is no admin leaves the jobs
of other users and their logs alone. -/
theorem Reachable.sparesOthers (h : Reachable P w) (hu : user.role ≠ .admin) {p : Pid} {c : Call}
    {prog : Code Outcome} (hp : w.procs p = some (c, prog)) (hc : c.Serves user)
    (hpid : mv.pid = some p)
    (hs : (machine P).step mv w = some w') : w.shared.core.db.SparesOthers user.id
    w'.shared.core.db := by
  obtain ⟨σ, hσ⟩ := h.tenants hu
  rcases Machine.step_cases hs with ⟨q, c', s, rfl, hnone, -, rfl⟩ |
    ⟨q, ch, c', o, k, r, s, rfl, hq, he, rfl⟩ | ⟨q, c', prog', rfl, -, rfl⟩ | ⟨e, s, rfl, -, rfl⟩
  · cases hpid
    rw [hp] at hnone
    cases hnone
  · cases hpid
    rw [hp] at hq
    cases hq
    exact ((hσ.tenancy p c _ hp hc).own h.born (hσ.follows.ok hp hc) he).2.1
  · exact .refl _
  · cases hpid

end Run

end CloudJob
