import CloudJob.Contract.Soundness

/-!
# `Safety/Rows.lean` — capacity, attempts, the state policy

What holds of the rows of `jobs` in every state any run reaches. The policy table of
`JobStatePolicy` is consulted by no statement of the program: that every committed change of a
status is one it allows follows from the guards of the nine updates and from the fact that the one
guard which would allow more, that of `mark_failed_without_execution`, is never evaluated. -/

set_option autoImplicit false

namespace CloudJob

open Lib

variable {P : Params} {w : World (machine P)}

/-! ## Capacity -/

/-- **No owner has more running jobs than every worker's limit**, in any state any run reaches. -/
theorem running_within_capacity {n : Nat}
    (hn : ∀ settings, P.allows settings = true → settings.jobMaxRunningPerUser = n)
    (h : Reachable P w) (owner : Uuid) : w.shared.core.db.runningCount owner ≤ n :=
  h.lawful.runningCount_le hn owner

/-- The default deployment allows three, and the run below has one. -/
theorem running_within_capacity_claimed : ∃ w, Reachable .default w ∧
    w.shared.core.db.runningCount 1 = 1 ∧ w.shared.core.db.runningCount 1 ≤ 3 := by
  have hrun : (((machine .default).run claimedMoves (World.init .default)).map
      fun w => w.shared.core.db.runningCount 1) = some 1 := by
    decide +kernel
  obtain ⟨w, hw, hcount⟩ := Option.map_eq_some_iff.mp hrun
  have hr : Reachable .default w := .of_run hw
  refine ⟨w, hr, hcount, running_within_capacity (n := 3) (fun settings hs => ?_) hr 1⟩
  simp only [Params.default, beq_iff_eq] at hs
  rw [hs]

/-! ## Attempts -/

/-- **Attempts are counted and bounded.** `attempt_count` is the number of committed claims; a claim
is only made where one is left, so the limit is never exceeded, the handler is started no more often
than that, the delay of a retry is always in the table, and the branch of `_claim_execution` for a
job without an attempt left is not reached. -/
theorem attempts_bounded (h : Reachable P w) :
    (∀ j row, w.shared.core.db.job j = some row →
      row.attemptCount = w.shared.core.runs j ∧ row.attemptCount ≤ min (row.maxRetries + 1) 4 ∧
      (row.status = .pending → row.attemptCount = 0) ∧
      (row.status = .queued → row.attemptCount < min (row.maxRetries + 1) 4) ∧
      (row.status = .running → 1 ≤ row.attemptCount) ∧
      w.shared.core.starts j ≤ min (row.maxRetries + 1) 4) ∧
    (∀ p settings workerId message n,
      w.procs p ≠ some (.handleMessage settings workerId message, .raise (.keyError n))) ∧
    ∀ p op j status now error k, w.procs p ≠
      some (op, .call (.write (.updateJob j (.markFailedWithoutExecution status now error)))
        k) := by
  refine ⟨fun j row hj => ?_, fun p settings workerId message n hp => ?_,
    fun p op j status now error k hp => ?_⟩
  · have hshape := h.lawful.wellShaped hj
    have hruns := h.lawful.attemptCount_eq_runs hj
    have hstarts := h.lawful.starts_le_runs j
    rw [← hruns] at hstarts
    exact ⟨hruns, hshape.bound, hshape.pending, hshape.queued, fun hs => (hshape.running hs).1,
      hstarts.trans hshape.bound⟩
  · rcases h.post_raise hp (.keyError n) rfl with he | he
    · cases he
    · cases he
  · exact (h.pre hp).1.reached rfl

/-- The claimed job of the run is in its first attempt, of four. -/
theorem attempts_bounded_claimed : ∃ w, Reachable .default w ∧
    ∃ row, w.shared.core.db.job 10 = some row ∧ row.status = .running ∧ 1 ≤ row.attemptCount ∧
      row.attemptCount = w.shared.core.runs 10 := by
  have hrun : (((machine .default).run claimedMoves (World.init .default)).bind
      fun w => (w.shared.core.db.job 10).map Job.status) = some .running := by
    decide +kernel
  obtain ⟨w, hw, hrow⟩ := Option.bind_eq_some_iff.mp hrun
  obtain ⟨row, hj, hs⟩ := Option.map_eq_some_iff.mp hrow
  have hr : Reachable .default w := .of_run hw
  have hall := (attempts_bounded hr).1 10 row hj
  exact ⟨w, hr, row, hj, hs, hall.2.2.2.2.1 hs, hall.1⟩

/-! ## The state policy -/

/-- A statement that fires changes the status as the policy allows, or leaves it. -/
theorem canTransition_set {c : Core} {st : JobStmt} {row : Job} (hg : st.update.guard row = true)
    (ha : st.Allowed P c row) : (st.update.set row).status = row.status ∨
      JobStatePolicy.canTransition row.status (st.update.set row).status = true := by
  have hclose : ∀ {status : JobStatus} {token : Uuid},
      (row.status == .running && row.executionToken == some token) = true →
      JobStatePolicy.canTransition .running status = true →
      JobStatePolicy.canTransition row.status status = true := by
    intro status token hg ht
    simp only [Bool.and_eq_true, beq_iff_eq] at hg
    rwa [hg.1]
  cases st with
  | markQueued now =>
    have hs : row.status = .pending := by simpa [JobStmt.update, markQueued] using hg
    exact .inr (hs ▸ rfl)
  | markRunning w token now lease =>
    have hs : row.status = .queued := by simpa [JobStmt.update, markRunning] using hg
    exact .inr (hs ▸ rfl)
  | markCompleted token now => exact .inr (hclose hg rfl)
  | markFailed token now error => exact .inr (hclose hg rfl)
  | requeueRunning token now error => exact .inr (hclose hg rfl)
  | markCancelled token now => exact .inr (hclose hg rfl)
  | markFailedWithoutExecution status now error => exact ha.elim
  | cancelPendingOrQueued now =>
    have hs : row.status.isDispatchable = true := hg
    right
    show JobStatePolicy.canTransition row.status .cancelled = true
    cases hrow : row.status <;> rw [hrow] at hs <;> first | rfl | cases hs
  | requestRunningCancellation now => exact .inl rfl

/-- No statement fires on a terminal row. -/
theorem guard_of_isTerminal {c : Core} {st : JobStmt} {row : Job}
    (ht : row.status.isTerminal = true) (ha : st.Allowed P c row) : st.update.guard row ≠ true := by
  intro hg
  cases st with
  | markFailedWithoutExecution => exact ha.elim
  | _ =>
    cases hrow : row.status <;> simp_all [JobStmt.update, markQueued, markRunning, markCompleted,
      markFailed, requeueRunning, markCancelled, cancelPendingOrQueued, requestRunningCancellation,
      whileRunningAs, JobStatus.isTerminal, JobStatus.isDispatchable]

/-- A job never disappears. -/
theorem Reachable.job_stays (h : Reachable P w) {mv : Move (machine P)} {w' : World (machine P)}
    (hs : (machine P).step mv w = some w') {j : Uuid} {row : Job}
    (hj : w.shared.core.db.job j = some row) : ∃ row', w'.shared.core.db.job j = some row' := by
  rcases h.commits hs with hq | ⟨p, ch, op, k, -, -, -, hdb, -⟩
  · exact ⟨row, by rwa [Db.job, hq.jobs]⟩
  · obtain ⟨row', hrow', -⟩ := job_applyAll_stays (l := w.shared.staged p) hj
    exact ⟨row', hdb ▸ hrow'⟩

/-- A terminal row is left alone by every step. -/
theorem Reachable.terminal_step (h : Reachable P w) {mv : Move (machine P)} {w' : World (machine P)}
    (hs : (machine P).step mv w = some w') {j : Uuid} {row : Job}
    (hj : w.shared.core.db.job j = some row) (ht : row.status.isTerminal = true) :
    w'.shared.core.db.job j = some row := by
  obtain ⟨row', hj'⟩ := h.job_stays hs hj
  rcases h.row_cases hs hj' with hsame | ⟨hnone, -⟩ | ⟨row₀, st, p, ch, hrow, hg, ha, -⟩
  · rw [hj'.trans (hsame.symm.trans hj)]
  · rw [hj] at hnone
    cases hnone
  · rw [hj] at hrow
    cases hrow
    exact absurd hg (guard_of_isTerminal ht ha)

/-- **The implementation follows `JobStatePolicy`.** A step changes the status of a job only as the
policy allows, and a row that is terminal is the same in every later state. -/
theorem status_follows_policy (h : Reachable P w) {j : Uuid} {row : Job}
    (hj : w.shared.core.db.job j = some row) :
    (∀ mv w', (machine P).step mv w = some w' → ∃ row', w'.shared.core.db.job j = some row' ∧
      (row'.status ≠ row.status → JobStatePolicy.canTransition row.status row'.status = true)) ∧
    (row.status.isTerminal = true → ∀ w', (machine P).Reach w w' →
      w'.shared.core.db.job j = some row) := by
  constructor
  · intro mv w' hs
    obtain ⟨row', hj'⟩ := h.job_stays hs hj
    refine ⟨row', hj', fun hne => ?_⟩
    rcases h.row_cases hs hj' with hsame | ⟨hnone, -⟩ | ⟨row₀, st, p, ch, hrow, hg, ha, rfl, -⟩
    · rw [hj] at hsame
      cases hsame
      exact absurd rfl hne
    · rw [hj] at hnone
      cases hnone
    · rw [hj] at hrow
      cases hrow
      exact (canTransition_set hg ha).resolve_left hne
  · intro ht w' hw'
    -- the invariant along the run: the row, and that the state is reachable
    refine (hw'.invariant (I := fun w₁ => Reachable P w₁ ∧ w₁.shared.core.db.job j = some row)
      ⟨h, hj⟩ fun w₁ w₂ mv hi _ hs => ?_).2
    exact ⟨hi.1.step hs, hi.1.terminal_step hs hi.2 ht⟩

/-- The job of the run, completed, stays so. -/
theorem status_follows_policy_completed : ∃ w, Reachable .default w ∧
    ∃ row, w.shared.core.db.job 10 = some row ∧ row.status = .completed ∧
      ∀ w', (machine .default).Reach w w' → w'.shared.core.db.job 10 = some row := by
  have hrun : (((machine .default).run (claimedMoves ++ completeMoves 2 0)
      (World.init .default)).bind fun w => (w.shared.core.db.job 10).map Job.status) =
      some .completed := by
    decide +kernel
  obtain ⟨w, hw, hrow⟩ := Option.bind_eq_some_iff.mp hrun
  obtain ⟨row, hj, hs⟩ := Option.map_eq_some_iff.mp hrow
  have hr : Reachable .default w := .of_run hw
  exact ⟨w, hr, row, hj, hs, (status_follows_policy hr hj).2 (by rw [hs]; rfl)⟩

/-! ## The columns of a row -/

/-- How the columns of a row that no database constraint ties together go together. -/
structure Job.Consistent (row : Job) : Prop where
  token : row.status = .running ↔ row.executionToken ≠ none
  worker : row.status = .running ↔ row.workerId ≠ none
  lease : row.status = .running ↔ row.leaseExpiresAt ≠ none
  finished : row.status.isTerminal = true ↔ row.finishedAt ≠ none
  started : row.startedAt ≠ none ↔ 1 ≤ row.attemptCount
  cancelRequested : row.cancelRequestedAt ≠ none → 1 ≤ row.attemptCount
  completed : row.status = .completed → row.lastError = none ∧ 1 ≤ row.attemptCount
  failed : row.status = .failed → row.lastError ≠ none ∧ 1 ≤ row.attemptCount

theorem newPendingJob_consistent {id owner : Uuid} {type : JobType} {payload : Json}
    {key hash : String} {retries : Nat} {createdAt updatedAt : Datetime} :
    (newPendingJob id owner type payload key hash retries createdAt updatedAt).Consistent := by
  constructor <;> simp [newPendingJob, JobStatus.isTerminal]

/-- A row that no worker has. -/
theorem Job.Consistent.of_released {row : Job} {status : JobStatus} {now : Datetime}
    {finishedAt : Option Datetime} {lastError : Option String} (h : row.Consistent)
    (hs : status ≠ .running) (hfin : status.isTerminal = true ↔ finishedAt ≠ none)
    (hcompleted : status = .completed → lastError = none ∧ 1 ≤ row.attemptCount)
    (hfailed : status = .failed → lastError ≠ none ∧ 1 ≤ row.attemptCount) :
    Job.Consistent { row.release status now with finishedAt := finishedAt, lastError := lastError } where
  token := ⟨fun hr => absurd hr hs, fun hn => absurd rfl hn⟩
  worker := ⟨fun hr => absurd hr hs, fun hn => absurd rfl hn⟩
  lease := ⟨fun hr => absurd hr hs, fun hn => absurd rfl hn⟩
  finished := hfin
  started := h.started
  cancelRequested := h.cancelRequested
  completed := hcompleted
  failed := hfailed

/-- The statement that fires on a consistent row leaves one. -/
theorem Job.Consistent.set {c : Core} {row : Job} {st : JobStmt} (h : row.Consistent)
    (hshape : row.WellShaped) (hguard : st.update.guard row = true) (hallowed : st.Allowed P c row) :
    (st.update.set row).Consistent := by
  have hattempt : ∀ {token : Uuid}, (row.status == .running && row.executionToken == some token) = true →
      1 ≤ row.attemptCount := by
    intro token hg
    simp only [Bool.and_eq_true, beq_iff_eq] at hg
    exact (hshape.running hg.1).1
  cases st with
  | markQueued now =>
    have hp : row.status = .pending := by simpa [JobStmt.update, markQueued] using hguard
    have hfin : row.finishedAt = none := by
      by_contra hne
      have := h.finished.mpr hne
      rw [hp] at this
      cases this
    have hidle : row.status ≠ .running := by simp [hp]
    exact
      { token := ⟨fun hr => (by cases hr), fun hn => absurd (h.token.mpr hn) hidle⟩
        worker := ⟨fun hr => (by cases hr), fun hn => absurd (h.worker.mpr hn) hidle⟩
        lease := ⟨fun hr => (by cases hr), fun hn => absurd (h.lease.mpr hn) hidle⟩
        finished := ⟨fun ht => (by cases ht), fun hn => absurd hfin hn⟩
        started := h.started
        cancelRequested := h.cancelRequested
        completed := fun hs => by cases hs
        failed := fun hs => by cases hs }
  | markRunning w token now lease =>
    exact
      { token := ⟨fun _ => Option.some_ne_none _, fun _ => rfl⟩
        worker := ⟨fun _ => Option.some_ne_none _, fun _ => rfl⟩
        lease := ⟨fun _ => Option.some_ne_none _, fun _ => rfl⟩
        finished := ⟨fun ht => (by cases ht), fun hn => absurd rfl hn⟩
        started := ⟨fun _ => Nat.le_add_left 1 _, fun _ => Option.some_ne_none _⟩
        cancelRequested := fun _ => Nat.le_add_left 1 _
        completed := fun hs => by cases hs
        failed := fun hs => by cases hs }
  | markCompleted token now =>
    exact h.of_released (by decide) ⟨fun _ => Option.some_ne_none _, fun _ => rfl⟩ 
      (fun _ => ⟨rfl, hattempt hguard⟩) fun hs => by cases hs
  | markFailed token now error =>
    exact h.of_released (by decide) ⟨fun _ => Option.some_ne_none _, fun _ => rfl⟩ 
      (fun hs => by cases hs) fun _ => ⟨Option.some_ne_none _, hattempt hguard⟩
  | requeueRunning token now error =>
    exact h.of_released (by decide) ⟨fun ht => (by cases ht), fun hn => absurd rfl hn⟩
      (fun hs => by cases hs) fun hs => by cases hs
  | markCancelled token now =>
    exact h.of_released (by decide) ⟨fun _ => Option.some_ne_none _, fun _ => rfl⟩
      (fun hs => by cases hs) fun hs => by cases hs
  | markFailedWithoutExecution status now error => exact hallowed.elim
  | cancelPendingOrQueued now =>
    exact h.of_released (by decide) ⟨fun _ => Option.some_ne_none _, fun _ => rfl⟩
      (fun hs => by cases hs) fun hs => by cases hs
  | requestRunningCancellation now =>
    have hrun : row.status = .running := by
      simp only [JobStmt.update, requestRunningCancellation, Bool.and_eq_true, beq_iff_eq] at hguard
      exact hguard.1
    exact
      { token := h.token
        worker := h.worker
        lease := h.lease
        finished := h.finished
        started := h.started
        cancelRequested := fun _ => (hshape.running hrun).1
        completed := h.completed
        failed := h.failed }

theorem Lawful.consistent {c : Core} (h : Lawful P c) :
    ∀ {j : Uuid} {row : Job}, c.db.job j = some row → row.Consistent := by
  induction h with
  | init => intro j row hj; cases hj
  | step hc hstep ih =>
    intro j row' hj
    rcases hstep.jobEffect.row_cases hj with hj | ⟨-, _, _, _, _, _, _, _, rfl⟩ |
      ⟨row, st, hrow, hguard, hallowed, rfl, -⟩
    · exact ih hj
    · exact newPendingJob_consistent
    · exact (ih hrow).set (hc.wellShaped hrow) hguard hallowed

/-- Rows with one execution token are one row. -/
theorem Lawful.token_once {c : Core} (h : Lawful P c) {j j' token : Uuid} {row row' : Job}
    (hj : c.db.job j = some row) (hj' : c.db.job j' = some row')
    (ht : row.executionToken = some token) (ht' : row'.executionToken = some token) : j = j' := by
  obtain ⟨hled, hone⟩ := h.ledger token
  have hle : c.db.jobs.rows.countP (fun row => row.executionToken == some token) ≤ 1 := by
    change c.closed token + c.db.jobs.rows.countP (fun row => row.executionToken == some token) =
      c.issued token at hled
    omega
  by_contra hne
  have hrows : row ≠ row' := by
    rintro rfl
    exact hne ((Db.job_id hj).symm.trans (Db.job_id hj'))
  have hsub : [row, row'].Subperm (c.db.jobs.rows.filter fun row =>
      row.executionToken == some token) := by
    refine (List.nodup_cons.mpr ⟨by simpa using hrows, List.nodup_singleton _⟩).subperm ?_
    intro x hx
    simp only [List.mem_cons, List.not_mem_nil, or_false] at hx
    rcases hx with rfl | rfl
    · exact List.mem_filter.mpr ⟨Table.mem_of_find? hj, by simp [ht]⟩
    · exact List.mem_filter.mpr ⟨Table.mem_of_find? hj', by simp [ht']⟩
  have := hsub.length_le
  rw [← List.countP_eq_length_filter] at this
  simp only [List.length_cons, List.length_nil] at this
  omega

/-- **The shape of the rows.** In every state any run reaches, the columns of every row go together,
and no two rows hold one execution token. -/
theorem rows_consistent (h : Reachable P w) :
    (∀ j row, w.shared.core.db.job j = some row → row.Consistent) ∧
    ∀ j j' row row' token, w.shared.core.db.job j = some row → w.shared.core.db.job j' = some row' →
      row.status = .running → row'.status = .running → row.executionToken = some token →
      row'.executionToken = some token → j = j' :=
  ⟨fun _ _ hj => h.lawful.consistent hj, fun _ _ _ _ _ hj hj' _ _ ht ht' =>
    h.lawful.token_once hj hj' ht ht'⟩

/-- The claimed job of the run has a token, a worker and a lease, and no end. -/
theorem rows_consistent_claimed : ∃ w, Reachable .default w ∧
    ∃ row, w.shared.core.db.job 10 = some row ∧ row.status = .running ∧ row.Consistent ∧
      ∀ j' row' token, w.shared.core.db.job j' = some row' → row'.status = .running →
        row.executionToken = some token → row'.executionToken = some token → 10 = j' := by
  have hrun : (((machine .default).run claimedMoves (World.init .default)).bind
      fun w => (w.shared.core.db.job 10).map Job.status) = some .running := by
    decide +kernel
  obtain ⟨w, hw, hrow⟩ := Option.bind_eq_some_iff.mp hrun
  obtain ⟨row, hj, hs⟩ := Option.map_eq_some_iff.mp hrow
  have hr : Reachable .default w := .of_run hw
  exact ⟨w, hr, row, hj, hs, (rows_consistent hr).1 10 row hj,
    fun j' row' token hj' hs' ht ht' => (rows_consistent hr).2 10 j' row row' token hj hj'
    hs hs' ht ht'⟩

end CloudJob
