import CloudJob.Contract.Soundness

/-!
# `Safety/Lease.lean` — a live lease is not stolen

The claim of a job writes a lease into its row, and only recovery ever looks at it: a row whose
lease lies before the time recovery read is closed on behalf of the worker. That time is read before
the rows are locked, so it lies in the past when the batch is committed; with one clock for
everybody a lease that is live at the commit was live at the reading, and the row was not in the
batch.

What is left are the worker's own finalizers. Until one of them commits, the row stays as the claim
wrote it, and the first of them that asks finds it so. After that the lease is gone, and a job that
was queued for a retry may be claimed by somebody else while the time of the old lease has not yet
come. -/

set_option autoImplicit false

namespace CloudJob

open Lib

variable {P : Params} {w w' : World (machine P)} {j token : Uuid} {lease : Datetime}

/-- The columns that say who executes a job. -/
def Job.claimColumns (row : Job) :
    JobStatus × Option Uuid × Option String × Option Datetime × Nat :=
  (row.status, row.executionToken, row.workerId, row.leaseExpiresAt, row.attemptCount)

/-- A finalizer of the claim made as `token`: `p` is the worker that made the claim, and it has
staged one of the four statements that close it. -/
structure Shared.Finalizes (s : Shared) (p : Pid) (j token : Uuid) : Prop where
  worker : ∃ settings workerId m, s.calls p = some (.handleMessage settings workerId m)
  own : s.uuidOwner token = some p
  update : ∃ st : JobStmt, .updateJob j st ∈ s.staged p ∧ st.closes = some token

/-- A finalizer of that claim has committed. -/
def Shared.Finalized (s : Shared) (j token : Uuid) : Prop :=
  ∃ en ∈ s.core.history, ∃ st : JobStmt, en.event = .stmt (.updateJob j st) ∧
    st.closes = some token ∧ s.uuidOwner token = some en.pid

/-- The step leaves the columns of the claim as they are, or is the commit of a finalizer of it. -/
def KeepsLease (w w' : World (machine P)) (mv : Move (machine P)) (j token : Uuid) : Prop :=
  ∀ row, w.shared.core.db.job j = some row →
    (∃ row', w'.shared.core.db.job j = some row' ∧ row'.claimColumns = row.claimColumns) ∨
    ∃ p ch, mv = .run p ch ∧ w.shared.Finalizes p j token

theorem Shared.Finalized.step (hf : w.shared.Finalized j token) (h : Reachable P w)
    {mv : Move (machine P)} (hs : (machine P).step mv w = some w') :
    w'.shared.Finalized j token := by
  obtain ⟨en, hen, st, hev, hcloses, hown⟩ := hf
  exact ⟨en, (h.extends hs).history.subset hen, st, hev, hcloses, step_uuidOwner hs hown⟩

/-- The worker that claimed as `token` drew it, and is handling a message. -/
def Shared.ClaimedBy (s : Shared) (token : Uuid) (p : Pid) : Prop :=
  s.uuidOwner token = some p ∧ ∃ settings workerId m,
    s.calls p = some (.handleMessage settings workerId m)

theorem Reachable.claimedBy (h : Reachable P w) : ∀ {j token : Uuid} {workerId : String}
    {now lease : Datetime}, (j, .markRunning workerId token now lease) ∈ w.shared.core.committed →
    ∃ p, w.shared.ClaimedBy token p := by
  refine (h.invariant (I := fun w => Reachable P w ∧ ∀ {j token : Uuid} {workerId : String}
    {now lease : Datetime}, (j, .markRunning workerId token now lease) ∈ w.shared.core.committed →
    ∃ p, w.shared.ClaimedBy token p) ⟨.refl, fun hm => by cases hm⟩
    fun w₁ w₂ mv hi _ hs => ⟨hi.1.step hs, fun hm => ?_⟩).2
  rcases hi.1.committed_cases hs hm with hold | ⟨p, -, -, -, hst, -⟩
  · obtain ⟨p, hown, settings, workerId, m, hcall⟩ := hi.2 hold
    exact ⟨p, step_uuidOwner hs hown, settings, workerId, m, hi.1.calls_stay hs hcall⟩
  · have howned := hi.1.inv.staged hst
    obtain ⟨settings, workerId, m, -, hcall, -⟩ := howned.entitled
    exact ⟨p, step_uuidOwner hs (howned.token rfl rfl), settings, workerId, m,
      hi.1.calls_stay hs hcall⟩

/-- What fires on a row that runs: a request to stop, which leaves the claim alone, or what closes
it. -/
theorem claimColumns_set {c : Core} {st : JobStmt} {row : Job} (hrun : row.status = .running)
    (htoken : row.executionToken = some token) (hg : st.update.guard row = true)
    (ha : st.Allowed P c row) :
    (st.update.set row).claimColumns = row.claimColumns ∨ st.closes = some token := by
  have hclosing : ∀ {t : Uuid}, (row.status == .running && row.executionToken == some t) = true →
      some t = some token := by
    intro t ht
    simp only [Bool.and_eq_true, beq_iff_eq] at ht
    rw [← ht.2, htoken]
  cases st with
  | requestRunningCancellation now => exact .inl rfl
  | markCompleted t now => exact .inr (hclosing hg)
  | markFailed t now error => exact .inr (hclosing hg)
  | requeueRunning t now error => exact .inr (hclosing hg)
  | markCancelled t now => exact .inr (hclosing hg)
  | markFailedWithoutExecution status now error => exact ha.elim
  | markQueued now => simp [JobStmt.update, markQueued, hrun] at hg
  | markRunning workerId t now lease => simp [JobStmt.update, markRunning, hrun] at hg
  | cancelPendingOrQueued now =>
    simp [JobStmt.update, cancelPendingOrQueued, hrun, JobStatus.isDispatchable] at hg

/-- Recovery does not close a live lease. -/
theorem Closer.own (hclock : ∀ t r, P.reads t r = true → r = t) {s : Shared} {p : Pid}
    {now : Datetime} {row : Job} (h : Closer s p j token now) (hrow : s.core.db.job j = some row)
    (hlease : row.leaseExpiresAt = some lease) (hlive : s.core.clock ≤ lease)
    (hread : P.ReadBy s.core.clock now) : s.uuidOwner token = some p := by
  rcases h with hown | ⟨-, -, row', hrow', hexp⟩
  · exact hown
  · rw [hrow] at hrow'
    cases hrow'
    obtain ⟨t, ht, hr⟩ := hread
    simp only [Job.isExpired, hlease, Option.any_some, Bool.and_eq_true, decide_eq_true_eq] at hexp
    have hnow : now ≤ lease := hclock t now hr ▸ ht.trans hlive
    exact absurd hexp.2 (not_lt.mpr hnow)

/-- **One step on a row with a live lease.** -/
theorem Reachable.live_step (h : Reachable P w) (hclock : ∀ t r, P.reads t r = true → r = t)
    {row : Job} (hrun : w.shared.core.RunsAs j token row) (hlease : row.leaseExpiresAt = some lease)
    (hlive : w.shared.core.clock ≤ lease) {mv : Move (machine P)}
    (hs : (machine P).step mv w = some w') :
    (∃ row', w'.shared.core.db.job j = some row' ∧ row'.claimColumns = row.claimColumns) ∨
    ∃ p ch st, mv = .run p ch ∧ w.shared.uuidOwner token = some p ∧
      .updateJob j st ∈ w.shared.staged p ∧ st.closes = some token ∧
      w'.shared.core.history = (w.shared.core.commit p (w.shared.staged p)).history := by
  obtain ⟨row', hj', -⟩ := (h.extends hs).jobs hrun.found
  rcases h.commits hs with hq | ⟨p, ch, op, k, rfl, -, htxn, hdb, hh⟩
  · exact .inl ⟨row, by rw [Db.job, hq.jobs]; exact hrun.found, rfl⟩
  rcases htxn.row_cases (hdb ▸ hj') with hsame | ⟨hnone, -⟩ | ⟨row₀, st, hrow, hg, ha, rfl, hmem⟩
  · rw [hrun.found] at hsame
    cases hsame
    exact .inl ⟨row, hj', rfl⟩
  · rw [hrun.found] at hnone
    cases hnone
  rw [hrun.found] at hrow
  cases hrow
  rcases claimColumns_set hrun.running hrun.token hg ha with hkeep | hcloses
  · exact .inl ⟨_, hj', hkeep⟩
  have hent := (h.inv.staged hmem).entitled
  have hread := htxn.readBy hmem
  refine .inr ⟨p, ch, st, rfl, ?_, hmem, hcloses, hh⟩
  cases st with
  | markCompleted t now | markFailed t now error | requeueRunning t now error =>
    cases hcloses
    exact Closer.own hclock hent hrun.found hlease hlive hread
  | markCancelled t now =>
    cases hcloses
    exact hent.1
  | _ => cases hcloses

/-- As long as the lease is live, the row is what the claim made it, or a finalizer has
committed. -/
theorem Reachable.live_lease (h : Reachable P w) (hclock : ∀ t r, P.reads t r = true → r = t) :
    ∀ {j token : Uuid} {workerId : String} {now lease : Datetime},
    (j, .markRunning workerId token now lease) ∈ w.shared.core.committed →
    w.shared.core.clock ≤ lease → w.shared.Finalized j token ∨
      ∃ row, w.shared.core.RunsAs j token row ∧ row.leaseExpiresAt = some lease := by
  refine (h.invariant (I := fun w => Reachable P w ∧ ∀ {j token : Uuid} {workerId : String}
    {now lease : Datetime}, (j, .markRunning workerId token now lease) ∈ w.shared.core.committed →
    w.shared.core.clock ≤ lease → w.shared.Finalized j token ∨
      ∃ row, w.shared.core.RunsAs j token row ∧ row.leaseExpiresAt = some lease)
    ⟨.refl, fun hm => by cases hm⟩ fun w₁ w₂ mv hi _ hs => ⟨hi.1.step hs, fun hm hlive => ?_⟩).2
  rcases hi.1.committed_cases hs hm with hold | ⟨p, -, -, htxn, hst, hdb⟩
  · have hlive₁ := (hi.1.extends hs).clock.trans hlive
    rcases hi.2 hold hlive₁ with hf | ⟨row, hrun, hlease⟩
    · exact .inl (hf.step hi.1 hs)
    rcases hi.1.live_step hclock hrun hlease hlive₁ hs with ⟨row', hj', hcols⟩ |
      ⟨p, ch, st, -, hown, hmem, hcloses, hh⟩
    · simp only [Job.claimColumns, Prod.mk.injEq] at hcols
      obtain ⟨hstatus, htoken, -, hl, -⟩ := hcols
      exact .inr ⟨row', ⟨hj', hstatus.trans hrun.running, htoken.trans hrun.token⟩, hl.trans hlease⟩
    · exact .inl ⟨_, hh ▸ Core.mem_history_commit hmem p, st, rfl, hcloses, step_uuidOwner hs hown⟩
  · obtain ⟨row, -, -, -, hset⟩ := htxn.update_mem hst
    exact .inr ⟨_, ⟨by rw [hdb]; exact hset, rfl, rfl⟩, rfl⟩

/-- **A live lease is kept.** With one clock for everybody: from the commit of a claim, and until
one of its own finalizers commits, no step before the lease expires changes the columns of the claim
except the commit of such a finalizer; and a finalizer whose update is executed in that time matches
the row. -/
theorem live_lease_kept (hclock : ∀ t r, P.reads t r = true → r = t) (h : Reachable P w)
    {workerId : String} {now : Datetime}
    (hclaim : (j, .markRunning workerId token now lease) ∈ w.shared.core.committed)
    (hlive : w.shared.core.clock ≤ lease) (hopen : ¬ w.shared.Finalized j token) :
    (∀ mv w', (machine P).step mv w = some w' → KeepsLease w w' mv j token) ∧
    ∀ p op st k r s', w.procs p = some (op, .call (.write (.updateJob j st)) k) →
      st.closes = some token → w.shared.answer p (.write (.updateJob j st)) = some (r, s') →
      r = .ok true := by
  obtain ⟨row, hrun, hlease⟩ := (h.live_lease hclock hclaim hlive).resolve_left hopen
  obtain ⟨worker, hworker, hcall⟩ := h.claimedBy hclaim
  constructor
  · intro mv w' hs row₀ hrow₀
    rw [hrun.found] at hrow₀
    cases hrow₀
    refine (h.live_step hclock hrun hlease hlive hs).imp_right ?_
    rintro ⟨p, ch, st, rfl, hown, hmem, hcloses, -⟩
    obtain rfl : worker = p := Option.some.inj (hworker.symm.trans hown)
    exact ⟨worker, ch, rfl, hcall, hown, st, hmem, hcloses⟩
  · intro p op st k r s' hp hcloses ha
    obtain ⟨-, -, hfirst, -⟩ := h.pre hp
    have hview : (w.shared.view p).job j = some row :=
      (job_applyAll (hfirst j (List.mem_singleton_self _))).trans hrun.found
    have hguard : st.update.guard row = true := by
      cases st with
      | markCompleted t now | markFailed t now error | requeueRunning t now error | markCancelled t now =>
        cases hcloses
        simp [JobStmt.update, markCompleted, markFailed, requeueRunning, markCancelled,
          whileRunningAs, hrun.running, hrun.token]
      | _ => cases hcloses
    simp only [Shared.answer, outcome_updateJob hview, hguard, if_true] at ha
    split at ha
    · cases ha
      rfl
    · cases ha

/-- In the run below a worker has claimed a job and nobody else has touched it. -/
theorem live_lease_kept_claimed : ∃ w : World (machine .default), Reachable .default w ∧
    (10, .markRunning "w" 20 0 (seconds 60)) ∈ w.shared.core.committed ∧
    ∀ mv w', (machine .default).step mv w = some w' → KeepsLease w w' mv 10 20 := by
  have hrun : ((machine .default).run claimedMoves (World.init .default)).map (fun w =>
      (decide ((10, JobStmt.markRunning "w" 20 0 (seconds 60)) ∈ w.shared.core.committed),
        decide (w.shared.core.clock ≤ seconds 60), w.shared.core.closed 20)) =
      some (true, true, 0) := by
    decide +kernel
  simp only [Option.map_eq_some_iff, Prod.mk.injEq, decide_eq_true_eq] at hrun
  obtain ⟨w, hw, hclaim, hlive, hclosed⟩ := hrun
  refine ⟨w, .of_run hw, hclaim, (live_lease_kept (fun t r hr => ?_) (.of_run hw)
    hclaim hlive ?_).1⟩
  · simpa [Params.default] using hr
  · rintro ⟨en, hen, st, hev, hcloses, -⟩
    refine absurd hclosed (Nat.pos_iff_ne_zero.mp (List.countP_pos_iff.mpr ⟨(10, st), ?_, ?_⟩))
    · exact List.mem_filterMap.mpr ⟨en, hen, by rw [Entry.jobStmt, hev]; rfl⟩
    · simp [hcloses]

/-- In this one the job fails, is queued for a retry, and is claimed again under another token while
the time of its first lease has not come. -/
theorem lease_reclaimed : ∃ (w w' : World (machine .default)) (mv : Move (machine .default)),
    Reachable .default w ∧ (10, .markRunning "w" 20 0 (seconds 60)) ∈ w.shared.core.committed ∧
    w.shared.core.clock ≤ seconds 60 ∧ (machine .default).step mv w = some w' ∧
    ¬ KeepsLease w w' mv 10 20 := by
  have hrun : ((machine .default).run (claimedFailureMoves ++ retryMoves 2 12 0 ++
      [.env (.tick 5000000)] ++ republishMoves 4 (seconds 5) ++
      (claimMoves 5 ⟨1, .dispatch ⟨12, 10, 0⟩⟩ 21 (seconds 5)).take 11)
      (World.init .default)).bind (fun w => ((machine .default).step (.run 5 .answer) w).map
      fun w' =>
        (decide ((10, JobStmt.markRunning "w" 20 0 (seconds 60)) ∈ w.shared.core.committed),
          decide (w.shared.core.clock ≤ seconds 60), w.shared.uuidOwner 20,
          (w.shared.core.db.job 10).map Job.status, (w'.shared.core.db.job 10).map Job.status)) =
      some (true, true, some 2, some .queued, some .running) := by
    decide +kernel
  simp only [Option.bind_eq_some_iff, Option.map_eq_some_iff, Prod.mk.injEq,
    decide_eq_true_eq] at hrun
  obtain ⟨w, hw, w', hs, hclaim, hlive, hown, ⟨row, hrow, hq⟩, row', hrow', hr⟩ := hrun
  refine ⟨w, w', _, .of_run hw, hclaim, hlive, hs, fun hkeep => ?_⟩
  rcases hkeep row hrow with ⟨row₁, hrow₁, hcols⟩ | ⟨p, ch, hmv, hfin⟩
  · rw [hrow'] at hrow₁
    cases hrow₁
    simp [Job.claimColumns, hq, hr] at hcols
  · cases hmv
    have hno := hfin.own
    rw [hown] at hno
    cases hno

end CloudJob
