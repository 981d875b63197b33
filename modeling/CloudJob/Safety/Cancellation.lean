import CloudJob.Contract.Soundness

/-!
# `Safety/Cancellation.lean` — what becomes of a requested cancellation

`request_running_cancellation` only sets a column. The handler that polls for it stops; what happens
to the job otherwise is decided by the finalizers and by recovery, and neither looks at the column
before it queues the job again. A job that was asked to stop and then fails, or whose worker dies,
is therefore tried once more. That is the only way: in a run in which no such job is queued again,
none is.

In the other direction, a job is cancelled only where someone asked for it. A worker is told to stop
for three reasons, and two of them are not requests: the job is gone, or its token is not the
worker's any more. What keeps such a worker from cancelling the job is the token in the `WHERE` of
`mark_cancelled`. -/

set_option autoImplicit false

namespace CloudJob

open Lib

variable {P : Params} {c c' : Core} {w w' : World (machine P)}

/-! ## The column -/

/-- No statement clears the column. -/
theorem cancelRequestedAt_set {st : JobStmt} {row : Job} (h : row.cancelRequestedAt.isSome = true) :
    (st.update.set row).cancelRequestedAt.isSome = true := by
  cases st <;> first | exact h | rfl

theorem JobEffect.cancelRequestedAt (h : JobEffect P c c') {j : Uuid} {row : Job}
    (hj : c.db.job j = some row) (hc : row.cancelRequestedAt.isSome = true) :
    ∃ row', c'.db.job j = some row' ∧ row'.cancelRequestedAt.isSome = true := by
  obtain ⟨row', hj', -⟩ := h.row_stays hj
  refine ⟨row', hj', ?_⟩
  rcases h.row_cases hj' with hsame | ⟨hnone, -⟩ | ⟨row₀, st, hrow, -, -, rfl, -⟩
  · rw [hj] at hsame
    cases hsame
    exact hc
  · rw [hj] at hnone
    cases hnone
  · rw [hj] at hrow
    cases hrow
    exact cancelRequestedAt_set hc

/-- A job whose cancellation was requested says so ever after. -/
theorem Lawful.cancelRequestedAt (h : Lawful P c) : ∀ {j : Uuid} {t : Datetime},
    (j, .requestRunningCancellation t) ∈ c.committed →
    ∃ row, c.db.job j = some row ∧ row.cancelRequestedAt.isSome = true := by
  induction h with
  | init => intro j t h; cases h
  | @step c c' _ hstep ih =>
    intro j t hmem
    have heff := hstep.jobEffect
    have hold : (j, .requestRunningCancellation t) ∈ c.committed →
        ∃ row', c'.db.job j = some row' ∧ row'.cancelRequestedAt.isSome = true := by
      intro hm
      obtain ⟨row, hj, hc⟩ := ih hm
      exact heff.cancelRequestedAt hj hc
    cases heff with
    | none _ hcom => exact hold (hcom ▸ hmem)
    | insert _ _ _ _ _ _ _ _ _ _ _ _ hcom => exact hold (hcom ▸ hmem)
    | update k st row hrow hguard _ hjobs hcom =>
      rw [hcom] at hmem
      rcases List.mem_cons.mp hmem with heq | hm
      · cases heq
        refine ⟨(requestRunningCancellation t).set row, ?_, rfl⟩
        rw [Db.job, hjobs, Table.find?_modify, if_pos rfl,
          show c.db.jobs.find? j = some row from hrow, Option.map_some,
          JobUpdate.run_of_guard hguard]
        rfl
      · exact hold hm

/-! ## No attempt after it -/

/-- The statement queues a job again whose cancellation was requested. -/
def Stmt.retriesCancelled (db : Db) : Stmt → Bool
  | .updateJob j (.requeueRunning _ _ _) => (db.job j).any fun row => row.cancelRequestedAt.isSome
  | _ => false

/-- The step commits no retry, of a worker or of recovery, of a job whose cancellation was
requested. -/
def sparesCancelled (w : World (machine P)) : Move (machine P) → Bool
  | .run _ (.fails _) => true
  | .run p _ => match w.procs p with
    | some (_, .call .commit _) =>
        (w.shared.staged p).all fun st => !st.retriesCancelled w.shared.core.db
    | _ => true
  | _ => true

/-- A call that raises without effect leaves the durable state alone. -/
theorem step_fails {p : Pid} {text : String}
    (hs : (machine P).step (.run p (.fails text)) w = some w') :
    w'.shared.core = w.shared.core := by
  rcases Machine.step_cases hs with ⟨_, _, _, hmv, -⟩ | ⟨q, ch, op, o, k, r, s, hmv, -, he, rfl⟩ |
    ⟨_, _, _, hmv, -⟩ | ⟨_, _, hmv, -⟩
  · cases hmv
  · cases hmv
    simp only [Shared.exec, Option.map_eq_some_iff, Prod.mk.injEq] at he
    obtain ⟨e, -, -, rfl⟩ := he
    cases o <;> rfl
  · cases hmv
  · cases hmv

/-- Job `j` was asked to stop, and is not waiting to be tried again: this is its `n`-th attempt, or
it is over. -/
def Stopping (c : Core) (j : Uuid) (n : Nat) : Prop :=
  ∃ row, c.db.job j = some row ∧ row.cancelRequestedAt.isSome = true ∧
    row.status.isDispatchable = false ∧ row.attemptCount = n

/-- What fires on such a row, short of a retry, leaves one. -/
theorem stopping_set {st : JobStmt} {row : Job} (hg : st.update.guard row = true)
    (hc : row.cancelRequestedAt.isSome = true) (hd : row.status.isDispatchable = false)
    (hno : ∀ token now error, st ≠ .requeueRunning token now error) :
    (st.update.set row).status.isDispatchable = false ∧
      (st.update.set row).attemptCount = row.attemptCount := by
  cases st with
  | markQueued now =>
    have hs : row.status = .pending := by simpa [JobStmt.update, markQueued] using hg
    rw [hs] at hd
    cases hd
  | markRunning w token now lease =>
    have hs : row.status = .queued := by simpa [JobStmt.update, markRunning] using hg
    rw [hs] at hd
    cases hd
  | requeueRunning token now error => exact absurd rfl (hno token now error)
  | cancelPendingOrQueued now =>
    have hs : row.status.isDispatchable = true := hg
    rw [hs] at hd
    cases hd
  | requestRunningCancellation now =>
    simp only [JobStmt.update, requestRunningCancellation, Bool.and_eq_true,
      Option.isNone_iff_eq_none] at hg
    rw [hg.2] at hc
    cases hc
  | markCompleted => exact ⟨rfl, rfl⟩
  | markFailed => exact ⟨rfl, rfl⟩
  | markCancelled => exact ⟨rfl, rfl⟩
  | markFailedWithoutExecution => exact ⟨rfl, rfl⟩

/-- The row of a job after a step that spares the cancelled: as before, new, or rewritten by a
statement that does not queue it again against a request. -/
theorem Reachable.spared_cases (h : Reachable P w) {mv : Move (machine P)}
    (hok : sparesCancelled w mv = true) (hs : (machine P).step mv w = some w')
    {j : Uuid} {row' : Job} (hj : w'.shared.core.db.job j = some row') :
    w.shared.core.db.job j = some row' ∨ row'.cancelRequestedAt = none ∧
      w.shared.core.db.job j = none ∨
    ∃ row, ∃ st : JobStmt, w.shared.core.db.job j = some row ∧ st.update.guard row = true ∧
      row' = st.update.set row ∧ (row.cancelRequestedAt.isSome = true →
        ∀ token now error, st ≠ .requeueRunning token now error) := by
  rcases h.commits hs with hq | ⟨p, ch, op, k, rfl, hp, htxn, hdb, -⟩
  · exact .inl (by rwa [Db.job, hq.jobs] at hj)
  rw [hdb] at hj
  rcases htxn.row_cases hj with hsame | ⟨hnone, _, _, _, _, _, _, _, rfl⟩ |
    ⟨row, st, hrow, hg, -, rfl, hmem⟩
  · exact .inl hsame
  · exact .inr (.inl ⟨rfl, hnone⟩)
  by_cases hf : ∃ text, ch = .fails text
  · -- the commit failed: the row is what it was
    obtain ⟨text, rfl⟩ := hf
    have hcore := step_fails hs
    rw [hcore] at hdb
    rw [← hdb] at hj
    exact .inl hj
  refine .inr (.inr ⟨row, st, hrow, hg, rfl, fun hc token now error hst => ?_⟩)
  subst hst
  have hall : (w.shared.staged p).all (fun st => !st.retriesCancelled w.shared.core.db) = true := by
    cases ch with
    | fails text => exact absurd ⟨text, rfl⟩ hf
    | _ => simpa only [sparesCancelled, hp] using hok
  have hst := List.all_eq_true.mp hall _ hmem
  simp [Stmt.retriesCancelled, hrow, hc] at hst

/-- A job that is asked to stop is running, so it is not waiting to be tried. -/
theorem dispatchable_set {st : JobStmt} {row : Job} (hg : st.update.guard row = true)
    (hc : row.cancelRequestedAt = none) (hc' :
      (st.update.set row).cancelRequestedAt.isSome = true) :
    (st.update.set row).status.isDispatchable = false := by
  cases st with
  | requestRunningCancellation now =>
    simp only [JobStmt.update, requestRunningCancellation, Bool.and_eq_true, beq_iff_eq] at hg
    show row.status.isDispatchable = false
    rw [hg.1]
    rfl
  | _ =>
    have hsame : row.cancelRequestedAt.isSome = true := hc'
    rw [hc] at hsame
    cases hsame

/-- In a run whose steps all spare the cancelled, no job that was asked to stop is dispatchable. -/
theorem not_dispatchable (h : (machine P).ReachBy (fun w mv => sparesCancelled w mv = true)
      (World.init P) w) : ∀ j row, w.shared.core.db.job j = some row →
    row.cancelRequestedAt.isSome = true → row.status.isDispatchable = false := by
  refine (h.invariant (I := fun w => Reachable P w ∧ ∀ j row, w.shared.core.db.job j = some row →
    row.cancelRequestedAt.isSome = true → row.status.isDispatchable = false)
    ⟨.refl, fun j row hj => by cases hj⟩ fun w₁ w₂ mv hi hok hs => ⟨hi.1.step hs, ?_⟩).2
  intro j row' hj' hc'
  rcases hi.1.spared_cases hok hs hj' with hsame | ⟨hnone, -⟩ | ⟨row, st, hrow, hg, rfl, hno⟩
  · exact hi.2 j row' hsame hc'
  · rw [hnone] at hc'
    cases hc'
  · cases hc : row.cancelRequestedAt with
    | none => exact dispatchable_set hg hc hc'
    | some t =>
      have hcs : row.cancelRequestedAt.isSome = true := by rw [hc]; rfl
      exact (stopping_set hg hcs (hi.2 j row hrow hcs) (hno hcs)).1

/-- A step that spares the cancelled does not start another attempt of one. -/
theorem Stopping.step {j : Uuid} {n : Nat} (hi : Stopping w.shared.core j n) (h : Reachable P w)
    {mv : Move (machine P)} (hok : sparesCancelled w mv = true)
    (hs : (machine P).step mv w = some w') : Stopping w'.shared.core j n := by
  obtain ⟨row, hj, hc, hd, hn⟩ := hi
  obtain ⟨row', hj', -⟩ : ∃ row', w'.shared.core.db.job j = some row' ∧
      row'.identity = row.identity := by
    rcases h.commits hs with hq | ⟨p, -, -, -, -, -, -, hdb, -⟩
    · exact ⟨row, by rwa [Db.job, hq.jobs], rfl⟩
    · rw [hdb]
      exact job_applyAll_stays hj
  rcases h.spared_cases hok hs hj' with hsame | ⟨-, hnone⟩ | ⟨row₀, st, hrow, hg, rfl, hno⟩
  · rw [hj] at hsame
    cases hsame
    exact ⟨row, hj', hc, hd, hn⟩
  · rw [hj] at hnone
    cases hnone
  · rw [hj] at hrow
    cases hrow
    obtain ⟨hd', hn'⟩ := stopping_set hg hc hd (hno hc)
    exact ⟨_, hj', cancelRequestedAt_set hc, hd', hn'.trans hn⟩

/-- **A requested cancellation is not followed by an attempt**, in any run in which no job whose
cancellation was requested is queued again: the number of claims of the job does not change any
more. -/
theorem cancelled_not_retried
    (h : (machine P).ReachBy (fun w mv => sparesCancelled w mv = true) (World.init P) w) {j : Uuid}
    {t : Datetime} (hreq : (j, .requestRunningCancellation t) ∈ w.shared.core.committed)
    (hw : (machine P).ReachBy (fun w mv => sparesCancelled w mv = true) w w') :
    w'.shared.core.runs j = w.shared.core.runs j := by
  have hr : Reachable P w := h.reach
  obtain ⟨row, hj, hc⟩ := hr.lawful.cancelRequestedAt hreq
  have hstart : Stopping w.shared.core j row.attemptCount :=
    ⟨row, hj, hc, not_dispatchable h j row hj hc, rfl⟩
  obtain ⟨hr', row', hj', -, -, hn⟩ : Reachable P w' ∧ Stopping w'.shared.core j row.attemptCount :=
    hw.invariant (I := fun w₁ => Reachable P w₁ ∧ Stopping w₁.shared.core j row.attemptCount)
      ⟨hr, hstart⟩ fun w₁ w₂ mv hi hok hs => ⟨hi.1.step hs, hi.2.step hi.1 hok hs⟩
  rw [← hr'.lawful.attemptCount_eq_runs hj', hn, hr.lawful.attemptCount_eq_runs hj]

/-- In the run below the job is asked to stop and completes all the same, in its one attempt. -/
theorem cancelled_not_retried_completed : ∃ w w' : World (machine .default),
    (10, .requestRunningCancellation 0) ∈ w.shared.core.committed ∧
    (machine .default).Reach w w' ∧
    (∃ row, w'.shared.core.db.job 10 = some row ∧ row.status = .completed) ∧
    w'.shared.core.runs 10 = w.shared.core.runs 10 := by
  have hrun : (((machine .default).runIf sparesCancelled
    (claimedMoves ++ requestCancelMoves 3 1 10 0)
      (World.init .default)).bind fun w =>
        ((machine .default).runIf sparesCancelled (completeMoves 2 0) w).map fun w' =>
          (decide ((10, JobStmt.requestRunningCancellation 0) ∈ w.shared.core.committed),
            (w'.shared.core.db.job 10).map Job.status)) = some (true, some .completed) := by
    decide +kernel
  simp only [Option.bind_eq_some_iff, Option.map_eq_some_iff, Prod.mk.injEq,
    decide_eq_true_eq] at hrun
  obtain ⟨w, hw, w', hw', hreq, hstatus⟩ := hrun
  have h : (machine .default).ReachBy (fun w mv => sparesCancelled w mv = true)
      (World.init .default) w :=
    .of_runIf (fun _ _ ht => ht) hw
  have h' : (machine .default).ReachBy (fun w mv => sparesCancelled w mv = true) w w' :=
    .of_runIf (fun _ _ ht => ht) hw'
  exact ⟨w, w', hreq, h'.reach, hstatus, cancelled_not_retried h hreq h'⟩

/-- In this one it fails, is queued for a retry as if nobody had asked, and is claimed again. -/
theorem cancelled_retried : ∃ w w' : World (machine .default), Reachable .default w ∧
    (10, .requestRunningCancellation 0) ∈ w.shared.core.committed ∧
    (machine .default).Reach w w' ∧ w.shared.core.runs 10 = 1 ∧ w'.shared.core.runs 10 = 2 := by
  have hrun : (((machine .default).run (claimedFailureMoves ++ requestCancelMoves 3 1 10 0)
      (World.init .default)).bind fun w =>
        ((machine .default).run (retryMoves 2 12 0 ++ [.env (.tick 5000000)] ++
          republishMoves 4 (seconds 5) ++
          claimMoves 5 ⟨1, .dispatch ⟨12, 10, 0⟩⟩ 21 (seconds 5)) w).map fun w' =>
          (decide ((10, JobStmt.requestRunningCancellation 0) ∈ w.shared.core.committed),
            w.shared.core.runs 10, w'.shared.core.runs 10)) = some (true, 1, 2) := by
    decide +kernel
  simp only [Option.bind_eq_some_iff, Option.map_eq_some_iff, Prod.mk.injEq,
    decide_eq_true_eq] at hrun
  obtain ⟨w, hw, w', hw', hreq, hone, htwo⟩ := hrun
  exact ⟨w, w', .of_run hw, hreq, .of_run hw', hone, htwo⟩

/-! ## Who asked for it -/

/-- `cancel_job` has committed a cancellation of job `j`, or a request for one, for a user who is an
admin or the owner of the job. -/
def Shared.AskedFor (s : Shared) (j ownerId : Uuid) : Prop :=
  ∃ en ∈ s.core.history, ∃ user t, s.calls en.pid = some (.cancelJob user j) ∧
    (user.role = .admin ∨ user.id = ownerId) ∧
    (en.event = .stmt (.updateJob j (.cancelPendingOrQueued t)) ∨
      en.event = .stmt (.updateJob j (.requestRunningCancellation t)))

theorem Shared.AskedFor.step {j ownerId : Uuid} (ha : w.shared.AskedFor j ownerId)
    (h : Reachable P w) {mv : Move (machine P)} (hs : (machine P).step mv w = some w') :
    w'.shared.AskedFor j ownerId := by
  obtain ⟨en, hen, user, t, hcall, hrest⟩ := ha
  exact ⟨en, (h.extends hs).history.subset hen, user, t, h.calls_stay hs hcall, hrest⟩

/-- A row that is cancelled, or asked to be. -/
def Job.isStopped (row : Job) : Prop := row.status = .cancelled ∨
    row.cancelRequestedAt.isSome = true

/-- What stops a row is one of the two statements of `cancel_job`, or `mark_cancelled`. -/
theorem isStopped_set {st : JobStmt} {row : Job} (hstop : (st.update.set row).isStopped)
    (hnow : ¬ row.isStopped) : (∃ now, st = .cancelPendingOrQueued now) ∨
      (∃ now, st = .requestRunningCancellation now) ∨ ∃ token now,
      st = .markCancelled token now := by
  have hcol : row.cancelRequestedAt.isSome ≠ true := fun hc => hnow (.inr hc)
  cases st with
  | cancelPendingOrQueued now => exact .inl ⟨now, rfl⟩
  | requestRunningCancellation now => exact .inr (.inl ⟨now, rfl⟩)
  | markCancelled token now => exact .inr (.inr ⟨token, now, rfl⟩)
  | _ =>
    rcases hstop with hs | hc
    · cases hs
    · exact absurd hc hcol

/-- A row that is stopped after a step was stopped before it, or is by a request that the step
commits. -/
theorem Reachable.isStopped_step (h : Reachable P w) (hp : P.handlerRegistry.Honest)
    {mv : Move (machine P)} (hs : (machine P).step mv w = some w') {j : Uuid} {row' : Job}
    (hj : w'.shared.core.db.job j = some row') (hstop : row'.isStopped) :
    (∃ row, w.shared.core.db.job j = some row ∧ row.isStopped ∧ row'.ownerId = row.ownerId) ∨
      w'.shared.AskedFor j row'.ownerId := by
  rcases h.row_cases hs hj with hsame | ⟨-, _, _, _, _, _, _, _, rfl⟩ |
    ⟨row, st, p, ch, hrow, hg, -, rfl, -, hmem, hh⟩
  · exact .inl ⟨row', hsame, hstop, rfl⟩
  · rcases hstop with hc | hc
    · cases hc
    · cases hc
  have howner : (st.update.set row).ownerId = row.ownerId := by
    have hid := st.update.run_identity row
    rw [JobUpdate.run_of_guard hg] at hid
    exact congrArg (·.ownerId) hid
  by_cases hnow : row.isStopped
  · exact .inl ⟨row, hrow, hnow, howner⟩
  have hent := (h.inv.staged hmem).entitled
  have hen : (⟨p, w.shared.core.clock, .stmt (.updateJob j st)⟩ : Entry) ∈ w'.shared.core.history :=
    hh ▸ Core.mem_history_commit hmem p
  -- `cancel_job` answers for both of its statements in the same way
  have hasked : ∀ {user : CurrentUserDTO} {row₀ : Job},
    w.shared.calls p = some (.cancelJob user j) →
      w.shared.core.db.job j = some row₀ → (user.role = .admin ∨ user.id = row₀.ownerId) →
      (∃ t, st = .cancelPendingOrQueued t ∨ st = .requestRunningCancellation t) →
      w'.shared.AskedFor j (st.update.set row).ownerId := by
    intro user row₀ hcall hrow₀ hauth ⟨t, hst⟩
    rw [hrow] at hrow₀
    cases hrow₀
    refine ⟨_, hen, user, t, h.calls_stay hs hcall, by rwa [howner], hst.imp ?_ ?_⟩
    · exact fun hst => by rw [hst]
    · exact fun hst => by rw [hst]
  rcases isStopped_set hstop hnow with ⟨now, rfl⟩ | ⟨now, rfl⟩ | ⟨token, now, rfl⟩
  · obtain ⟨user, row₀, hcall, hrow₀, hauth⟩ := hent
    exact .inr (hasked hcall hrow₀ hauth ⟨now, .inl rfl⟩)
  · obtain ⟨user, row₀, hcall, hrow₀, hauth⟩ := hent
    exact .inr (hasked hcall hrow₀ hauth ⟨now, .inr rfl⟩)
  · -- the row is the worker's own, and it was told to stop: so it was asked to
    have htoken : row.executionToken = some token := by
      simp only [JobStmt.update, markCancelled, whileRunningAs, Bool.and_eq_true, beq_iff_eq] at hg
      exact hg.2
    exact absurd (.inr (hent.2 hp row hrow htoken)) hnow

theorem Reachable.askedFor (h : Reachable P w) (hp : P.handlerRegistry.Honest) :
    ∀ j row, w.shared.core.db.job j = some row → row.isStopped →
    w.shared.AskedFor j row.ownerId := by
  refine (h.invariant (I := fun w => Reachable P w ∧ ∀ j row, w.shared.core.db.job j = some row →
    row.isStopped → w.shared.AskedFor j row.ownerId) ⟨.refl, fun j row hj => by cases hj⟩
    fun w₁ w₂ mv hi _ hs => ⟨hi.1.step hs, ?_⟩).2
  intro j row' hj hstop
  rcases hi.1.isStopped_step hp hs hj hstop with ⟨row, hrow, hstop', howner⟩ | hnew
  · rw [howner]
    exact (hi.2 j row hrow hstop').step hi.1 hs
  · exact hnew

/-- **No cancellation that nobody asked for.** A cancelled job was the subject of a `cancel_job`
call that its owner or an admin made and that committed; and a worker cancels a job only under the
token its row has at that moment, after such a request. -/
theorem cancelled_on_request (hp : P.handlerRegistry.Honest) (h : Reachable P w) :
    (∀ j row, w.shared.core.db.job j = some row → row.status = .cancelled →
      w.shared.AskedFor j row.ownerId) ∧
    ∀ mv w' l, (machine P).step mv w = some w' →
      w'.shared.core.history = l ++ w.shared.core.history →
      ∀ en ∈ l, ∀ j token now, en.event = .stmt (.updateJob j (.markCancelled token now)) →
        ∃ row, w.shared.core.RunsAs j token row ∧ row.cancelRequestedAt.isSome = true ∧
          w.shared.AskedFor j row.ownerId := by
  refine ⟨fun j row hj hc => h.askedFor hp j row hj (.inl hc), ?_⟩
  intro mv w' l hs hl en hen j token now hev
  obtain ⟨-, -, -, -, -, -, htxn, hmem, -⟩ := h.new_stmt hs hl hen hev
  obtain ⟨row, hrow, hg, -, -⟩ := htxn.update_mem hmem
  simp only [JobStmt.update, markCancelled, whileRunningAs, Bool.and_eq_true, beq_iff_eq] at hg
  have hreq := (h.inv.staged hmem).entitled.2 hp row hrow hg.2
  exact ⟨row, ⟨hrow, hg.1, hg.2⟩, hreq, h.askedFor hp j row hrow (.inr hreq)⟩

/-- A job that sleeps for a second is claimed; its owner asks for it to be cancelled, the handler's
first poll says so, and the worker has staged the cancellation and its log. -/
def cancelledSleepMoves : List (Move (machine P)) :=
  [.env (.register 1),
    .start 0 (.createJob {} ⟨1, .user⟩ "k" .sleep (.obj [("duration_seconds", .int 1)]))] ++
    (createMoves 0 1 10 11 "k" .sleep 0).tail ++ publishMoves 1 0 ++
    claimMoves 2 ⟨0, .dispatch ⟨11, 10, 0⟩⟩ 20 0 ++ requestCancelMoves 3 1 10 0 ++
    answers 2 4 ++ [.run 2 (.time 0)] ++ answers 2 2 ++ [.run 2 (.time 0)] ++ answers 2 1

/-- In the run below the commit that follows cancels the job under its token, as its owner asked. -/
theorem cancelled_on_request_polled : ∃ (w w' : World (machine .default)) (row : Job),
    Reachable .default w ∧ (machine .default).step (.run 2 .answer) w = some w' ∧
    w.shared.core.RunsAs 10 20 row ∧ row.cancelRequestedAt.isSome = true ∧
    w.shared.AskedFor 10 row.ownerId ∧
    ∃ row', w'.shared.core.db.job 10 = some row' ∧ row'.status = .cancelled ∧
      w'.shared.AskedFor 10 row'.ownerId := by
  have hrun : (((machine .default).run cancelledSleepMoves (World.init .default)).bind fun w =>
      ((machine .default).step (.run 2 .answer) w).map fun w' =>
        ((w'.shared.core.db.job 10).map (·.status), (w'.shared.core.history.take
          (w'.shared.core.history.length - w.shared.core.history.length)).filterMap
          Entry.jobStmt)) =
      some (some .cancelled, [(10, .markCancelled 20 0)]) := by
    decide +kernel
  simp only [Option.bind_eq_some_iff, Option.map_eq_some_iff, Prod.mk.injEq] at hrun
  obtain ⟨w, hw, w', hs, ⟨row', hrow', hstatus⟩, hstmt⟩ := hrun
  have hr : Reachable .default w := .of_run hw
  obtain ⟨l, hl, -⟩ := step_history hs
  rw [show w'.shared.core.history.take
    (w'.shared.core.history.length - w.shared.core.history.length) = l by simp [hl]] at hstmt
  obtain ⟨en, hen, hst⟩ := List.mem_filterMap.mp (hstmt ▸ List.mem_singleton_self _)
  obtain ⟨row, hrow, hreq, hasked⟩ := (cancelled_on_request buildJobHandlerRegistry_honest hr).2
    (.run 2 .answer) w' l hs hl en hen 10 20 0 (Entry.event_of_jobStmt hst)
  exact ⟨w, w', row, hr, hs, hrow, hreq, hasked, row', hrow', hstatus,
    (cancelled_on_request buildJobHandlerRegistry_honest (hr.step hs)).1 10 row' hrow' hstatus⟩

end CloudJob
