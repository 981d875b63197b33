import CloudJob.Contract.Uow
import CloudJob.Lifecycle.Keys

/-!
# `Contract/Create.lean` — `create_job` keeps the contract, and answers as it should

The insert holds the index entry of its `(owner_id, idempotency_key)` until the commit, so what it
saw there is still so when the row goes in. The duplicate path has only that to go on: the row that
made the insert fail was a committed one, rows are never deleted, and so the reload in a later
transaction finds it. -/

set_option autoImplicit false

namespace CloudJob

open Lib

variable {P : Params} {p : Pid} {g : Ghost} {c : Core} {s s' : Shared} {β : Type} {op : Call}
  {Q : Except Exc β → Shared → Prop}

/-! ## The calls only `create_job` makes -/

theorem Held.reserve {f : Option CreateJobRateLimitReservationDTO → Code β} {u : Uuid}
    (h : Held P p g c s) (hok : ∀ r s', Held P p g c s' → (contract P).Safe p (f r) Q s')
    (herr : ∀ s', Held P p g c s' → Q (.error .rateLimitExceeded) s') :
    (contract P).Safe p ((call (.reserve u)).bind f) Q s := by
  refine h.perform (fun _ _ _ => trivial) fun s' ch r s'' hi hh _ he => ?_
  cases ch with
  | reservation r => cases he; exact hok _ _ hh
  | fails text => cases he; exact hh.raise fun s₁ _ hh₁ => herr s₁ hh₁
  | _ => cases he

theorem Held.releaseReservation {f : Unit → Code β} {r : Option CreateJobRateLimitReservationDTO}
    (h : Held P p g c s) (hok : ∀ s', Held P p g c s' → (contract P).Safe p (f ()) Q s') :
    (contract P).Safe p ((JobService.releaseReservation r).bind f) Q s := by
  cases r with
  | none => exact hok s h
  | some reservation =>
    refine h.perform (fun _ _ _ => trivial) fun s' ch r s'' hi hh _ he => ?_
    cases ch with
    | answer => cases he; exact hok _ hh
    | _ => cases he

/-- The unique violation of the index on `(owner_id, idempotency_key)`. -/
def duplicateKey : IntegrityError :=
  ⟨some "23505", some "uq_jobs_owner_id_idempotency_key", "duplicate key value"⟩

/-- How an insert can go. -/
theorem outcome_insertJob (db : Db) (job : Job) :
    (db.jobByKey job.ownerId job.idempotencyKey = none ∧ job.ownerId ∈ db.users ∧
      db.job job.id = none ∧ (Stmt.insertJob job).outcome db = .matched) ∨
    (∃ row, db.jobByKey job.ownerId job.idempotencyKey = some row ∧
      (Stmt.insertJob job).outcome db = .violates duplicateKey) ∨
    ∃ orig, isDuplicateJobIdempotencyKeyError orig = false ∧
      (Stmt.insertJob job).outcome db = .violates orig := by
  cases hkey : db.jobByKey job.ownerId job.idempotencyKey with
  | some row => exact .inr (.inl ⟨row, rfl, by simp [Stmt.outcome, hkey, duplicateKey]⟩)
  | none =>
    by_cases huser : job.ownerId ∈ db.users
    · cases hid : db.job job.id with
      | none => exact .inl ⟨rfl, huser, rfl, by simp [Stmt.outcome, hkey, huser, hid]⟩
      | some row =>
        exact .inr (.inr ⟨⟨some "23505", some "pk_jobs", "duplicate key value"⟩, by decide,
          by simp [Stmt.outcome, hkey, huser, hid]⟩)
    · exact .inr (.inr ⟨⟨some "23503", some "fk_jobs_owner_id_users", "foreign key violation"⟩,
        by decide, by simp [Stmt.outcome, hkey, huser]⟩)

/-- The insert of a job, as the first statement of a transaction. -/
theorem Held.insertJob {f : Bool → Code β} {job : Job} (h : Held P p g c s) (hr : g.rows = [])
    (hst : g.staged = []) (hcall : ∀ settings, g.call ≠ .recoverDueBatchOnce settings)
    (hblank : job.status = .pending ∧ job.executionToken = none)
    (hown : job.id ∈ g.own)
    (hok : ∀ c' s', c'.db.jobByKey job.ownerId job.idempotencyKey = none →
      job.ownerId ∈ c'.db.users → c'.db.job job.id = none →
      Held P p (g.stage [.job job.id, .jobKey job.ownerId job.idempotencyKey] (.insertJob job)) c'
      s' → (contract P).Safe p (f true) Q s')
    (hdup : ∀ c' row s', c'.db.jobByKey job.ownerId job.idempotencyKey = some row →
      Held P p g c' s' → (contract P).Safe p (.raise (.integrity duplicateKey)) Q s')
    (hviolates : ∀ orig s', isDuplicateJobIdempotencyKeyError orig = false → Held P p g c s' →
      (contract P).Safe p (.raise (.integrity orig)) Q s')
    (herr : ∀ e s', e.isExternal = true → Inv P s' → Held P p g c s' → Q (.error e) s') :
    (contract P).Safe p ((call (.write (.insertJob job))).bind f) Q s := by
  refine h.write (fun s' _ hh => ⟨⟨trivial, nofun, nofun, ?_, ?_, nofun, trivial⟩, .inr hr⟩)
    (fun j _ => not_mem_rows_of_nil hst (.job j))
    (fun _ settings _ hc => absurd hc (hcall settings))
    (fun s' hi hh _ ho => ?_) (fun s' _ hh ho => ?_) (fun s' orig hi hh ho => ?_) herr
  · intro u hu
    cases hu
    exact (hh.own _ hown).1
  · intro job' hjob
    cases hjob
    exact hblank
  · rw [hst, Db.applyAll_nil] at ho
    rcases outcome_insertJob s'.core.db job with ⟨hkey, huser, hid, -⟩ |
      ⟨row, -, hv⟩ | ⟨orig, -, hv⟩
    · exact hok s'.core _ hkey huser hid ((hh.rebase hi).stage (.insertJob job) (.refl _))
    · rw [hv] at ho
      cases ho
    · rw [hv] at ho
      cases ho
  · rcases outcome_insertJob (s'.core.db.applyAll g.staged) job with ⟨-, -, -, hv⟩ | ⟨_, -, hv⟩ |
      ⟨_, -, hv⟩ <;> rw [hv] at ho <;> cases ho
  · rw [hst, Db.applyAll_nil] at ho
    rcases outcome_insertJob s'.core.db job with ⟨-, -, -, hv⟩ | ⟨row, hrow, hv⟩ | ⟨orig', hd, hv⟩
    · rw [hv] at ho
      cases ho
    · rw [hv] at ho
      cases ho
      exact hdup s'.core row s' hrow (hh.rebase hi)
    · rw [hv] at ho
      cases ho
      exact hviolates _ s' hd hh

namespace JobService

/-! ## The insert -/

/-- Process `p` committed the insert of the job of `owner` and `key`. -/
def Inserted (p : Pid) (owner : Uuid) (key : String) (id : Uuid) (c : Core) : Prop :=
  ∃ en ∈ c.insertions owner key, en.pid = p ∧ ∃ job, en.event = .stmt (.insertJob job) ∧ job.id = id

theorem Inserted.mono {owner : Uuid} {key : String} {id : Uuid} {c c' : Core}
    (h : Inserted p owner key id c) (hc : c.Extends c') : Inserted p owner key id c' := by
  obtain ⟨en, hen, hrest⟩ := h
  obtain ⟨new, hnew⟩ := hc.history
  refine ⟨en, ?_, hrest⟩
  unfold Core.insertions at hen ⊢
  rw [← hnew, List.filter_append]
  exact List.mem_append_right _ hen

/-- How the `try` body of `create_job` ends. -/
def InsertPost (P : Params) (p : Pid) (op : Call) (owner : Uuid) (key : String) :
    Except Exc StoredJobDTO → Shared → Prop
  | .ok job, s => ∃ g c, Held P p g c s ∧ g.call = op ∧ g.rows = [] ∧ g.staged = [] ∧
      Inserted p owner key job.id c
  | .error e, s =>
      (e = .duplicateJobIdempotencyKey ∧ ∃ g c row, Held P p g c s ∧ g.call = op ∧
        c.db.jobByKey owner key = some row) ∨
      ((e.isExternal = true ∨ ∃ orig, e = .integrity orig ∧
        isDuplicateJobIdempotencyKeyError orig = false) ∧
        Somewhere P p op s)

theorem insertJob_safe {settings : Settings} {user : CurrentUserDTO} {key : String} {type : JobType}
    {payload : Json} (h : Held P p g c s) (hc : g.call = op)
    (hcall : ∀ settings w m, g.call ≠ .handleMessage settings w m)
    (hrec : ∀ settings, g.call ≠ .recoverDueBatchOnce settings) (hr : g.rows = [])
    (hst : g.staged = []) :
    (contract P).Safe p
      (insertJob settings user key type payload (P.buildRequestHash type payload))
      (InsertPost P p op user.id key) s := by
  subst hc
  unfold insertJob Jobs.createPendingJob JobLogs.createJobCreatedLog Outbox.createDispatchEvent
    CloudJob.commit utcNow CloudJob.uuid4
  simp only [Prog.bind_eq, Prog.pure_eq, Prog.bind_assoc, Prog.ret_bind]
  have hext : ∀ {e : Exc} {s' : Shared}, e.isExternal = true → Somewhere P p g.call s' →
      InsertPost P p g.call user.id key (.error e) s' := fun he hs => .inr ⟨.inl he, hs⟩
  refine h.uuid4 fun id s₁ _ _ h₁ => h₁.now fun createdAt s₂ h₂ => h₂.now fun updatedAt s₃ h₃ => ?_
  refine Protocol.Safe.bind (Protocol.Safe.tryCatch ?_)
  rw [← Prog.bind_ret (call _)]
  refine h₃.insertJob hr hst hrec ⟨rfl, rfl⟩ List.mem_cons_self (fun c₄ s₄ hkey huser hid h₄ => ?_)
    (fun c₄ row s₄ hrow h₄ => ?_) (fun orig s₄ hd h₄ => ?_) fun e s₄ he _ h₄ => ?_
  · refine h₄.ret fun s₅ _ h₅ => h₅.ret fun s₆ _ h₆ => ?_
    refine h₆.createSystemLog (fun t s₇ h₇ => ?_) fun e s₇ he h₇ => hext he h₇
    refine h₇.now fun availableAt s₈ h₈ => h₈.now fun t' s₉ h₉ =>
      h₉.uuid4 fun e s₁₀ he hnew h₁₀ => ?_
    refine h₁₀.insertEvent List.mem_cons_self he.event ?_ ?_ (fun s₁₁ h₁₁ => ?_)
      fun e s₁₁ he _ h₁₁ => hext he h₁₁.somewhere
    · -- the only uuid that is staged yet is that of the job
      intro st hm hin
      simp only [Ghost.stage, hst, List.nil_append, List.mem_append, List.mem_singleton] at hm
      rcases hm with rfl | rfl
      · simp only [Stmt.introduces, newPendingJob, Option.some.injEq] at hin
        exact hnew (hin ▸ List.mem_cons_self)
      · cases hin
    · simp [Ghost.stage, toStoredJobDto, newPendingJob]
    refine h₁₁.commit (fun s₁₂ _ h₁₂ => ?_) (fun s₁₂ _ h₁₂ => h₁₂.spendOk hcall _)
      (fun _ _ hspend => ?_) (fun s₁₂ s₁₃ h₁₂ _ _ hhist _ h₁₃ => ?_) fun e s₁₂ he h₁₂ => hext he h₁₂
    · have hk := h₁₂.keeps
      show Txn P s₁₂.core (((g.staged ++ [_]) ++ [_]) ++ [_])
      rw [hst]
      refine .action (.create (hk.key ?_ hkey) (hk.users _ huser) ((hk.job ?_).trans hid)
        ((h₁₂.own e List.mem_cons_self).2.event he.event) (h₁₂.reads createdAt ?_)
        (h₁₂.reads updatedAt ?_))
      all_goals simp [Ghost.stage, newPendingJob]
    · obtain ⟨settings, w, m, hc⟩ := hspend
      exact absurd hc (hcall settings w m)
    · refine h₁₃.ret fun s₁₄ _ h₁₄ => ⟨_, _, h₁₄, rfl, rfl, rfl, ?_⟩
      refine ⟨⟨p, s₁₂.core.clock, .stmt (.insertJob _)⟩, List.mem_filter.mpr ⟨?_, ?_⟩,
        rfl, _, rfl, rfl⟩
      · rw [hhist]
        refine List.mem_append_left _ ?_
        simp [Ghost.stage, hst]
      · simp [Entry.insertsKey, Stmt.insertsKey, Job.hasKey, newPendingJob]
  · refine h₄.raise fun s₅ _ h₅ => h₅.raise fun s₆ _ h₆ => ?_
    exact .inl ⟨rfl, _, _, row, h₆, rfl, hrow⟩
  · refine h₄.raise fun s₅ _ h₅ => ?_
    show (contract P).Safe p (if _ then _ else _) _ _
    rw [hd]
    exact h₅.raise fun s₆ _ h₆ => .inr ⟨.inr ⟨orig, rfl, hd⟩, h₆.somewhere⟩
  · have hraise : (contract P).Safe p (.raise e) (InsertPost P p g.call user.id key) s₄ :=
      h₄.raise fun s₅ _ h₅ => hext he h₅.somewhere
    cases e with
    | integrity orig => cases he
    | _ => exact hraise

/-! ## The answer -/

/-- The database holds the job of `owner` and `key`, under this id and with a request hash in
`R`. -/
def HasJob (owner : Uuid) (key : String) (R : String → Prop) (id : Uuid) (c : Core) : Prop :=
  ∃ row, c.db.job id = some row ∧ row.ownerId = owner ∧ row.idempotencyKey = key ∧ R row.requestHash

theorem HasJob.mono {owner : Uuid} {key : String} {R : String → Prop} {id : Uuid} {c c' : Core}
    (h : HasJob owner key R id c) (hc : c.Extends c') : HasJob owner key R id c' := by
  obtain ⟨row, hrow, ho, hk, hR⟩ := h
  obtain ⟨row', hrow', hid⟩ := hc.jobs hrow
  have ho' : row'.ownerId = row.ownerId := congrArg JobIdentity.ownerId hid
  have hk' : row'.idempotencyKey = row.idempotencyKey := congrArg JobIdentity.idempotencyKey hid
  have hh' : row'.requestHash = row.requestHash := congrArg JobIdentity.requestHash hid
  exact ⟨row', hrow', ho'.trans ho, hk'.trans hk, hh' ▸ hR⟩

/-- What `create_job` may raise: of the violated constraints, never the one that makes the key
unique. -/
def Refused (owner : Uuid) (key hash : String) (e : Exc) (c : Core) : Prop :=
  e.isExternal = true ∨ (∃ orig, e = .integrity orig ∧
    isDuplicateJobIdempotencyKeyError orig = false) ∨
    e = .rateLimitExceeded ∨
    (e = .idempotencyConflict ∧ ∃ id, HasJob owner key (· ≠ hash) id c)

theorem Refused.mono {owner : Uuid} {key hash : String} {e : Exc} {c c' : Core}
    (h : Refused owner key hash e c) (hc : c.Extends c') : Refused owner key hash e c' :=
  h.imp_right fun h => h.imp_right fun h => h.imp_right fun ⟨he, id, hj⟩ => ⟨he, id, hj.mono hc⟩

/-- What `create_job` may return. -/
def Answered (p : Pid) (owner : Uuid) (key hash : String) (r : JobCreateResultDTO)
    (c : Core) : Prop :=
  if r.created then Inserted p owner key r.job.id c else HasJob owner key (· = hash) r.job.id c

theorem Answered.mono {owner : Uuid} {key hash : String} {r : JobCreateResultDTO} {c c' : Core}
    (h : Answered p owner key hash r c) (hc : c.Extends c') : Answered p owner key hash r c' := by
  unfold Answered at *
  split
  · rename_i hr
    rw [if_pos hr] at h
    exact h.mono hc
  · rename_i hr
    rw [if_neg hr] at h
    exact h.mono hc

/-- How `create_job` ends. -/
def CreatePost (p : Pid) (owner : Uuid) (key hash : String) :
    Except Exc JobCreateResultDTO → Shared → Prop
  | .ok r, s => Answered p owner key hash r s.core
  | .error e, s => Refused owner key hash e s.core

/-- `_validate_existing_job` on a row that was read. -/
theorem validateExistingJob_safe {owner : Uuid} {key hash : String} {row : Job}
    {f : JobPublicDTO → Code β} {Q : Except Exc β → Shared → Prop} (h : Held P p g c s)
    (hrow : c.db.jobByKey owner key = some row)
    (hok : ∀ job, HasJob owner key (· = hash) job.id c → (contract P).Safe p (f job) Q s)
    (herr : ∀ s', Held P p g c s' → Refused owner key hash .idempotencyConflict c →
      Q (.error .idempotencyConflict) s') :
    (contract P).Safe p ((validateExistingJob (toStoredJobDto row) hash).bind f) Q s := by
  obtain ⟨hid, ho, hk⟩ := Db.jobByKey_eq_some hrow
  unfold validateExistingJob
  split
  · rename_i hne
    exact h.raise fun s₁ _ h₁ =>
      herr s₁ h₁ (.inr (.inr (.inr ⟨rfl, row.id, row, hid, ho, hk, hne⟩)))
  · rename_i heq
    exact hok _ ⟨row, hid, ho, hk, not_not.mp heq⟩

/-- A row of the pair, once there, is found by every later lookup. -/
theorem jobByKey_of_extends {owner : Uuid} {key : String} {row : Job} {c c' : Core}
    (h : c.db.jobByKey owner key = some row) (hc : c.Extends c') :
    ∃ row', c'.db.jobByKey owner key = some row' := by
  cases hrow' : c'.db.jobByKey owner key with
  | some row' => exact ⟨row', rfl⟩
  | none =>
    obtain ⟨hid, ho, hk⟩ := Db.jobByKey_eq_some h
    obtain ⟨row', hid', ho', hk', -⟩ :=
      HasJob.mono (R := fun _ => True) ⟨row, hid, ho, hk, trivial⟩ hc
    exact absurd ⟨ho', hk'⟩ (Db.jobByKey_eq_none.mp hrow' _ row' hid')

/-- `_load_existing_job`, where there is one. -/
theorem loadExistingJob_safe {owner : Uuid} {key hash : String} {row : Job}
    {f : JobPublicDTO → Code β} {Q : Except Exc β → Shared → Prop} (h : Held P p g c s)
    (hcall : ∀ settings w m, g.call ≠ .handleMessage settings w m) (hr : g.rows = [])
    (hst : g.staged = []) (hrow : c.db.jobByKey owner key = some row)
    (hok : ∀ job c' s', HasJob owner key (· = hash) job.id c' → Held P p g.idle c' s' →
      (contract P).Safe p (f job) Q s')
    (herr : ∀ e c' s', Refused owner key hash e c' → c'.Extends s'.core → Q (.error e) s') :
    (contract P).Safe p ((loadExistingJob owner key hash).bind f) Q s := by
  refine Protocol.Safe.bind (h.withUow (E := fun e _ => Refused owner key hash e)
    (B := fun job s => ∃ c', HasJob owner key (· = hash) job.id c' ∧ Held P p g c' s) hr hst
    (fun _ he => .inl he) (fun e _ c' s₁ he h₁ _ => herr e c' s₁ he h₁.keeps.toExtends)
    (fun s₁ h₁ => ?_) fun job s₁ _ h₁ => ?_)
  · unfold Jobs.getByIdempotencyKey
    simp only [Prog.bind_eq, Prog.pure_eq, Prog.bind_assoc, Prog.ret_bind]
    refine h₁.selectJobByKey (fun s₂ hi h₂ => ?_) fun e s₂ he _ h₂ => ⟨_, _, h₂, rfl, .inl he⟩
    rw [hst, Db.applyAll_nil]
    obtain ⟨row', hrow'⟩ := jobByKey_of_extends hrow h₂.keeps.toExtends
    rw [hrow']
    show (contract P).Safe p (validateExistingJob (toStoredJobDto row') hash) _ s₂
    rw [← Prog.bind_ret (validateExistingJob _ _)]
    exact validateExistingJob_safe (h₂.rebase hi) hrow'
      (fun job hjob => (h₂.rebase hi).ret fun s₃ _ h₃ => ⟨_, hjob, h₃⟩)
      fun s₃ h₃ hc => ⟨_, _, h₃, rfl, hc⟩
  · obtain ⟨c', hjob, h'⟩ := h₁
    refine h'.leave hcall (fun s₂ _ h₂ => hok job c' s₂ hjob h₂) fun e s₂ he h₂ => ?_
    exact herr e s₂.core s₂ (.inl he) (.refl _)

/-- How the unit of work of `create_job` ends where it raises nothing. -/
def Decided (P : Params) (p : Pid) (op : Call) (owner : Uuid) (key hash : String)
    (r : Option JobCreateResultDTO) (s : Shared) : Prop :=
  ∃ g c, Held P p g c s ∧ g.call = op ∧ match r with
    | some r => Answered p owner key hash r c
    | none => ∃ row, c.db.jobByKey owner key = some row

/-- The body of the unit of work from where the key was found to be free. -/
theorem reserveAndInsert_safe {settings : Settings} {user : CurrentUserDTO} {key : String}
    {type : JobType} {payload : Json} (h : Held P p g c s) (hc : g.call = op)
    (hcall : ∀ settings w m, g.call ≠ .handleMessage settings w m)
    (hrec : ∀ settings, g.call ≠ .recoverDueBatchOnce settings) (hr : g.rows = [])
    (hst : g.staged = []) :
    (contract P).Safe p
      ((call (.reserve user.id)).bind fun reservation =>
        (insertJob settings user key type payload (P.buildRequestHash type payload)).attempt.bind
          fun outcome => match outcome with
            | .error .duplicateJobIdempotencyKey =>
                (releaseReservation reservation).bind fun _ => rollback.bind fun _ => .ret none
            | .error e => (releaseReservation reservation).bind fun _ => .raise e
            | .ok createdJob => (invalidateOwner user.id).bind fun _ =>
                (notifyPostCommit (toJobPublicDto createdJob)).bind fun _ =>
                  .ret (some (JobCreateResultDTO.mk (toJobPublicDto createdJob) true)))
      (UowPost P p op (Decided P p op user.id key (P.buildRequestHash type payload))
        fun e _ => Refused user.id key (P.buildRequestHash type payload) e) s := by
  refine h.reserve (fun r s₁ h₁ => ?_) fun s₁ h₁ => ⟨_, _, h₁, hc, .inr (.inr (.inl rfl))⟩
  refine Protocol.Safe.bind (Protocol.Safe.attempt
    ((insertJob_safe h₁ hc hcall hrec hr hst).mono ?_))
  intro outcome s₂ _ hpost
  cases outcome with
  | ok job =>
    obtain ⟨g', c', h₂, hc', -, -, hins⟩ := hpost
    refine h₂.invalidateOwner fun s₃ h₃ => h₃.notifyPostCommit fun s₄ h₄ => ?_
    exact h₄.ret fun s₅ _ h₅ => ⟨g', c', h₅, hc', hins⟩
  | error e =>
    rcases hpost with ⟨rfl, g', c', row, h₂, hc', hrow⟩ | ⟨he, g', c', h₂, hc'⟩
    · refine h₂.releaseReservation fun s₃ h₃ => h₃.rollback (fun s₄ h₄ => ?_) fun e s₄ he _ h₄ => ?_
      · exact h₄.ret fun s₅ _ h₅ => ⟨_, c', h₅, hc', row, hrow⟩
      · exact ⟨_, _, h₄, hc', .inl he⟩
    · have hraise : (contract P).Safe p ((releaseReservation r).bind fun _ => .raise e)
          (UowPost P p op (Decided P p op user.id key (P.buildRequestHash type payload))
            fun e _ => Refused user.id key (P.buildRequestHash type payload) e) s₂ :=
        h₂.releaseReservation fun s₃ h₃ => h₃.raise fun s₄ _ h₄ =>
          ⟨_, _, h₄, hc', he.imp_right .inl⟩
      cases e with
      | duplicateJobIdempotencyKey => rcases he with he | ⟨_, he, -⟩ <;> cases he
      | _ => exact hraise

theorem createJob_safe {settings : Settings} {user : CurrentUserDTO} {key : String} {type : JobType}
    {payload : Json} (h : Held P p g c s)
    (hcall : ∀ settings w m, g.call ≠ .handleMessage settings w m)
    (hrec : ∀ settings, g.call ≠ .recoverDueBatchOnce settings) (hr : g.rows = [])
    (hst : g.staged = []) :
    (contract P).Safe p (createJob P.sha256 settings user key type payload)
      (CreatePost p user.id key (P.buildRequestHash type payload)) s := by
  unfold createJob
  simp only [Prog.bind_eq, Prog.pure_eq]
  refine Protocol.Safe.bind (h.withUow (E := fun e _ =>
    Refused user.id key (P.buildRequestHash type payload) e)
    (B := Decided P p g.call user.id key (P.buildRequestHash type payload)) hr hst
    (fun _ he => .inl he) (fun e _ c' s₁ he h₁ _ => he.mono h₁.keeps.toExtends)
    (fun s₁ h₁ => ?_) fun r s₁ _ h₁ => ?_)
  · unfold Jobs.getByIdempotencyKey
    simp only [Prog.bind_eq, Prog.pure_eq, Prog.bind_assoc, Prog.ret_bind]
    refine h₁.selectJobByKey (fun s₂ hi h₂ => ?_) fun e s₂ he _ h₂ => ⟨_, _, h₂, rfl, .inl he⟩
    rw [hst, Db.applyAll_nil]
    cases hrow : s₂.core.db.jobByKey user.id key with
    | some row =>
      refine validateExistingJob_safe (h₂.rebase hi) hrow (fun job hjob => ?_)
        fun s₃ h₃ hc => ⟨_, _, h₃, rfl, hc⟩
      exact (h₂.rebase hi).ret fun s₃ _ h₃ => ⟨_, _, h₃, rfl, hjob⟩
    | none => exact reserveAndInsert_safe h₂ rfl hcall hrec hr hst
  · obtain ⟨g', c', h', hc', hr'⟩ := h₁
    refine h'.leave (hc' ▸ hcall) (fun s₂ _ h₂ => ?_) fun e s₂ he _ => .inl he
    cases r with
    | some r => exact h₂.ret fun s₃ _ h₃ => hr'.mono h₃.keeps.toExtends
    | none =>
      obtain ⟨row, hrow⟩ := hr'
      refine loadExistingJob_safe h₂ (hc' ▸ hcall) rfl rfl hrow (fun job c₃ s₃ hjob h₃ => ?_)
        fun e c₃ s₃ he hx => he.mono hx
      exact h₃.ret fun s₄ _ h₄ => hjob.mono h₄.keeps.toExtends

end JobService

end CloudJob
