import CloudJob.Contract.Soundness

/-!
# `Safety/Delivery.lean` — no accepted job is stranded, and none is dispatched twice at a time

A job waits for something in three ways, and each time the thing it waits for is there. A pending
job has its dispatch in the outbox. A queued job has one there too, or a message in the broker that
no claim has used up. A running job has a lease, and when that has passed recovery's query lists the
job.

The wake-up moves between the three with the job, and the moves are made in different transactions
of different processes; that none of them loses it is `Lawful.covered`. -/

set_option autoImplicit false

namespace CloudJob

open Lib

variable {P : Params} {w : World (machine P)}

/-- A running job whose lease has passed is in the list `claim_expired_running_jobs_for_update` goes
through. -/
theorem mem_expiredRunning {db : Db} {j : Uuid} {row : Job} {lease now : Datetime}
    (hj : db.job j = some row) (hs : row.status = .running) (hl : row.leaseExpiresAt = some lease)
    (hlt : lease < now) : row ∈ db.expiredRunning now := by
  unfold Db.expiredRunning
  rw [List.mem_insertionSort, List.mem_filter]
  refine ⟨Table.mem_of_find? hj, ?_⟩
  simp [Job.isExpired, hs, hl, hlt]

/-- **No job is stranded**, in any state any run reaches. -/
theorem no_job_stranded (h : Reachable P w) {j : Uuid} {row : Job}
    (hj : w.shared.core.db.job j = some row) :
    (row.status = .pending → ∃ e, w.shared.core.db.Pending j e) ∧
    (row.status = .queued → (∃ e, w.shared.core.db.Pending j e) ∨
      ∃ m ∈ w.shared.core.broker, m.IsFor j ∧ m.id ∉ w.shared.core.spent) ∧
    (row.status = .running → row.executionToken.isSome = true ∧
      ∃ lease, row.leaseExpiresAt = some lease ∧
        ∀ now, lease < now → row ∈ w.shared.core.db.expiredRunning now) := by
  have hcov := h.lawful.covered j row hj
  refine ⟨hcov.pending, hcov.queued, fun hs => ?_⟩
  obtain ⟨-, htok, hlease⟩ := (h.lawful.wellShaped hj).running hs
  obtain ⟨lease, hl⟩ := Option.isSome_iff_exists.mp hlease
  exact ⟨htok, lease, hl, fun now hlt => mem_expiredRunning hj hs hl hlt⟩

/-- The job that process 2 has claimed is running, as token 20, with the lease of 60 seconds. -/
theorem no_job_stranded_claimed : ∃ w, Reachable .default w ∧
    ∃ row, w.shared.core.db.job 10 = some row ∧ row.status = .running ∧
      ∃ lease, row.leaseExpiresAt = some lease ∧
        ∀ now, lease < now → row ∈ w.shared.core.db.expiredRunning now := by
  have hrun : (((machine .default).run claimedMoves (World.init .default)).bind
      fun w => (w.shared.core.db.job 10).map Job.status) = some .running := by
    decide +kernel
  obtain ⟨w, hw, hrow⟩ := Option.bind_eq_some_iff.mp hrun
  obtain ⟨row, hj, hs⟩ := Option.map_eq_some_iff.mp hrow
  have hr : Reachable .default w := .of_run hw
  exact ⟨w, hr, row, hj, hs, ((no_job_stranded hr hj).2.2 hs).2⟩

/-! ## One dispatch at a time -/

/-- **A job has at most one unpublished dispatch**, in any state any run reaches. No constraint of
the schema says so: whoever inserts one holds the job, and has looked for another. -/
theorem one_pending_dispatch (h : Reachable P w) {j e e' : Uuid}
    (he : w.shared.core.db.Pending j e) (he' : w.shared.core.db.Pending j e') : e = e' :=
  h.lawful.pending_unique he he'

/-- The job of the run, just created, has the event 11 and no other. -/
theorem one_pending_dispatch_created : ∃ w, Reachable .default w ∧ w.shared.core.db.Pending 10 11 ∧
    ∀ e, w.shared.core.db.Pending 10 e → e = 11 := by
  have hrun : (((machine .default).run ([.env (.register 1)] ++ createMoves 0 1 10 11
    "k" .success 0)
      (World.init .default)).bind fun w => w.shared.core.db.pendingDispatch 10) = some 11 := by
    decide +kernel
  obtain ⟨w, hw, hp⟩ := Option.bind_eq_some_iff.mp hrun
  have hr : Reachable .default w := .of_run hw
  have hpend := Db.pendingDispatch_eq_some hp
  exact ⟨w, hr, hpend, fun e he => one_pending_dispatch hr he hpend⟩

end CloudJob
