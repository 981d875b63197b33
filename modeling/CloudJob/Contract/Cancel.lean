import CloudJob.Contract.Uow

/-!
# `Contract/Cancel.lean` — `cancel_job` keeps the contract

The row is locked before it is looked at, so the status the branches test is the status the updates
see.
-/

set_option autoImplicit false

namespace CloudJob

open Lib

variable {P : Params} {p : Pid} {g : Ghost} {c : Core} {s s' : Shared} {β : Type} {op : Call}

namespace JobService

/-- Whose jobs the user may look up: anybody's, or their own. -/
def lookupScope (u : CurrentUserDTO) : Option Uuid := if u.role = .admin then none else some u.id

theorem lookupScope_all {u : CurrentUserDTO} {owner : Uuid} :
    (lookupScope u).all (· == owner) = true ↔ u.role = .admin ∨ u.id = owner := by
  unfold lookupScope
  by_cases hrole : u.role = .admin
  · simp [hrole]
  · simp [hrole]

/-- The lookup is one locking query. -/
theorem loadAuthorizedJobForUpdate_eq (u : CurrentUserDTO) (j : Uuid) :
    loadAuthorizedJobForUpdate u j =
      (call (.selectJobForUpdate j (lookupScope u))).bind fun job =>
        match job.map toStoredJobDto with
        | none => .raise (.resourceNotFound "Job not found")
        | some job => .ret job := by
  unfold loadAuthorizedJobForUpdate Jobs.getByIdForUpdate Jobs.getByIdForOwnerForUpdate lookupScope
  by_cases hrole : u.role = .admin
  · rw [if_pos hrole, if_pos hrole]
    exact Prog.bind_assoc _ _ _
  · rw [if_neg hrole, if_neg hrole]
    exact Prog.bind_assoc _ _ _

/-- `_load_existing_job_by_id` runs outside of any transaction and leaves none. -/
theorem loadExistingJobById_safe {j : Uuid} {f : JobPublicDTO → Code β}
    {Q : Except Exc β → Shared → Prop} (h : Held P p g c s)
    (hcall : ∀ settings w m, g.call ≠ .handleMessage settings w m) (hr : g.rows = [])
    (hst : g.staged = [])
    (hok : ∀ job s', Held P p g.idle c s' → (contract P).Safe p (f job) Q s')
    (herr : ∀ e s', Somewhere P p g.call s' → Q (.error e) s') :
    (contract P).Safe p ((loadExistingJobById j).bind f) Q s := by
  refine Protocol.Safe.bind (h.withUow (E := fun _ _ _ => True)
    (B := fun _ s => Held P p g c s) hr hst
    (fun _ _ => trivial) (fun e _ _ s₁ _ h₁ hc => herr e s₁ (hc ▸ h₁.somewhere))
    (fun s₁ h₁ => ?_) fun job s₁ _ h₁ => ?_)
  · unfold Jobs.getById
    simp only [Prog.bind_eq, Prog.pure_eq, Prog.bind_assoc, Prog.ret_bind]
    refine h₁.selectJob (fun s₂ _ h₂ => ?_) fun e s₂ _ _ h₂ => ⟨_, _, h₂, rfl, trivial⟩
    split
    · exact h₂.raise fun s₃ _ h₃ => ⟨_, _, h₃, rfl, trivial⟩
    · exact h₂.ret fun s₃ _ h₃ => h₃
  · exact h₁.leave hcall (fun s₂ _ h₂ => hok job s₂ h₂) fun e s₂ _ h₂ => herr e s₂ h₂

/-- The rest of a cancelling branch, once its update is staged. -/
theorem finishCancel_safe {job : StoredJobDTO} {message : String} {st : Stmt}
    (h : Held P p g c s) (hc : g.call = op)
    (hcall : ∀ settings w m, g.call ≠ .handleMessage settings w m) (hstaged : g.staged = [st])
    (htxn : ∀ t c', Keeps (· ∈ g.rows) c c' → (∀ t ∈ g.readings, P.ReadBy c'.clock t) →
      Action P c' [st, .insertLog (systemLog job.id "info" message t)]) :
    (contract P).Safe p (finishCancel job message)
      (UowPost P p op (fun _ s => Somewhere P p op s) fun _ _ _ => True) s := by
  subst hc
  unfold finishCancel CloudJob.commit
  simp only [Prog.bind_eq, Prog.pure_eq]
  refine h.createSystemLog (fun t s₁ h₁ => ?_) fun e s₁ _ h₁ => h₁.raised fun _ _ => trivial
  refine h₁.commitAction hcall (fun c' hk hread => ?_) (fun s₃ h₃ => ?_)
    fun e s₂ _ h₂ => h₂.raised fun _ _ => trivial
  · show Action P c' (g.staged ++ [_])
    rw [hstaged]
    exact htxn t c' hk fun t' ht' => hread t' (List.mem_cons_of_mem _ ht')
  · refine h₃.invalidateOwner fun s₄ h₄ => loadExistingJobById_safe h₄ hcall rfl rfl
      (fun j s₅ h₅ => ?_) fun e s₅ h₅ => h₅.raised fun _ _ => trivial
    exact h₅.notifyPostCommit fun s₆ h₆ => h₆.ret fun s₇ _ h₇ => h₇.somewhere

/-- An update of the row that was locked and read, and what follows it. -/
theorem cancelBranch_safe {row : Job} {jst : JobStmt} {message : String} (h : Held P p g c s)
    (hc : g.call = op) (hcall : ∀ settings w m, g.call ≠ .handleMessage settings w m)
    (hstaged : g.staged = [])
    (hj : .job row.id ∈ g.rows) (hrow : c.db.job row.id = some row) (hissues : jst.issues = none)
    (hx : ∀ status now error, jst ≠ .markFailedWithoutExecution status now error)
    (hent : ∀ s', Held P p g c s' → jst.Entitled P s' p row.id)
    (htxn : jst.update.guard row = true → ∀ t c', Keeps (· ∈ g.rows) c c' →
      (∀ t ∈ g.readings, P.ReadBy c'.clock t) →
      Action P c' [.updateJob row.id jst, .insertLog (systemLog row.id "info" message t)]) :
    (contract P).Safe p ((Jobs.update row.id jst).bind fun done =>
        if done then finishCancel (toStoredJobDto row) message
        else .ret (toJobPublicDto (toStoredJobDto row)))
      (UowPost P p op (fun _ s => Somewhere P p op s) fun _ _ _ => True) s := by
  subst hc
  refine h.updateLocked row hj hrow (not_mem_rows_of_nil hstaged _)
    (fun s₁ _ h₁ => .updateJob hissues hx (hent s₁ h₁)) (fun hg s₁ h₁ => ?_) (fun _ s₁ h₁ => ?_)
    fun e s₁ _ _ h₁ => ⟨_, _, h₁, rfl, trivial⟩
  · have hone : (g.stage [] (.updateJob row.id jst)).staged = [.updateJob row.id jst] := by
      simp [Ghost.stage, hstaged]
    exact finishCancel_safe h₁ rfl hcall hone
      fun t c' hk hr => htxn hg t c' hk hr
  · exact h₁.ret fun s₂ _ h₂ => h₂.somewhere

theorem cancelJob_safe {u : CurrentUserDTO} {j : Uuid} (h : Held P p g c s)
    (hop : g.call = .cancelJob u j) (hr : g.rows = []) (hst : g.staged = []) :
    (contract P).Safe p (cancelJob u j) (fun _ _ => True) s := by
  have hcall : ∀ settings w m, g.call ≠ .handleMessage settings w m := fun _ _ _ heq => by
    rw [hop] at heq
    cases heq
  unfold cancelJob utcNow
  simp only [Prog.bind_eq]
  refine h.now fun now s₁ h₁ => h₁.withUow (E := fun _ _ _ => True)
    (B := fun _ s => Somewhere P p g.call s) hr hst (fun _ _ => trivial)
    (fun _ _ _ _ _ _ _ => trivial)
    (fun s₂ h₂ => ?_) fun job s₂ _ h₂ => ?_
  · rw [loadAuthorizedJobForUpdate_eq, Prog.bind_assoc]
    refine h₂.selectJobForUpdate (.inl ?_) (fun settings hc => ?_) (fun o ho => ?_)
      (fun s₃ _ h₃ _ => ?_) (fun c₃ row s₃ hk hrow howner h₃ _ => ?_)
      fun e s₃ _ _ h₃ => ⟨_, _, h₃, rfl, trivial⟩
    · intro r hm
      rw [hr] at hm
      cases hm
    · rw [show g.call = _ from hop] at hc
      cases hc
    · rw [hr] at ho
      cases ho
    · exact h₃.raise fun s₄ _ h₄ => ⟨_, _, h₄, rfl, trivial⟩
    · rw [hst, Db.applyAll_nil] at hrow
      obtain rfl := Db.job_id hrow
      have hmem : LockRow.job row.id ∈ [LockRow.job row.id] ++ g.rows := List.mem_cons_self
      have hread : ∀ c' : Core, (∀ t ∈ now :: g.readings, P.ReadBy c'.clock t) →
          P.ReadBy c'.clock now :=
        fun c' hr => hr now List.mem_cons_self
      have hground : ∀ s', Held P p { g with
          rows := [.job row.id] ++ g.rows, readings := now :: g.readings } c₃ s' →
          ∃ user row', s'.calls p = some (.cancelJob user row.id) ∧
            s'.core.db.job row.id = some row' ∧ (user.role = .admin ∨ user.id = row'.ownerId) :=
        fun s' hh => ⟨u, row, hh.called.trans (congrArg some hop), (hh.keeps.job hmem).trans hrow,
          lookupScope_all.mp howner⟩
      show (contract P).Safe p (if row.status.isDispatchable then _ else _) _ s₃
      split
      · rename_i hd
        exact cancelBranch_safe h₃ rfl hcall hst hmem hrow rfl nofun hground fun _ t c' hk hr =>
          .cancel ((hk.job hmem).trans hrow) hd (hread c' hr)
      · split
        · rename_i hrun
          refine cancelBranch_safe h₃ rfl hcall hst hmem hrow rfl nofun hground fun hg t c' hk hr =>
            .requestCancel ((hk.job hmem).trans hrow) hrun ?_ (hread c' hr)
          simp only [JobStmt.update, requestRunningCancellation, Bool.and_eq_true,
            Option.isNone_iff_eq_none] at hg
          exact hg.2
        · split
          · exact h₃.raise fun s₄ _ h₄ => ⟨_, _, h₄, rfl, trivial⟩
          · exact h₃.ret fun s₄ _ h₄ => h₄.somewhere
  · obtain ⟨g', c', h', hc⟩ := h₂
    exact h'.leave (hc ▸ hcall) (fun _ _ _ => trivial) fun _ _ _ _ => trivial

end JobService

end CloudJob
