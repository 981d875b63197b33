import CloudJob.Lib.Simulation
import CloudJob.Safety.Rows

/-!
# `Safety/Workflow.lean` — what a job is to whoever submitted it

`Progress` is a job without workers, leases, tokens, dispatches and messages: its status, how often
it was started, and whether its cancellation was asked for. `Progress.Step` is what may happen to
it. The system refines this, job by job: every step of every run is a step of the workflow of each
job, or nothing to it. The workflow runs down a rank, so a job is done with after a number of
changes that depends on its retries only. -/

set_option autoImplicit false

namespace CloudJob

open Lib

/-! ## The workflow -/

structure Progress where
  status : JobStatus
  attempts : Nat
  asked : Bool
deriving DecidableEq

/-- The workflow of a job that is started at most `limit` times. -/
inductive Progress.Step (limit : Nat) : Progress → Progress → Prop where
  | dispatch {n : Nat} {c : Bool} : Step limit ⟨.pending, n, c⟩ ⟨.queued, n, c⟩
  | start {n : Nat} {c : Bool} : n < limit → Step limit ⟨.queued, n, c⟩ ⟨.running, n + 1, c⟩
  | finish {n : Nat} {c : Bool} {status : JobStatus} : status.isTerminal = true →
      Step limit ⟨.running, n, c⟩ ⟨status, n, c⟩
  | retry {n : Nat} {c : Bool} : n < limit → Step limit ⟨.running, n, c⟩ ⟨.queued, n, c⟩
  | cancel {n : Nat} {c : Bool} {status : JobStatus} : status.isDispatchable = true →
      Step limit ⟨status, n, c⟩ ⟨.cancelled, n, c⟩
  | ask {n : Nat} : Step limit ⟨.running, n, false⟩ ⟨.running, n, true⟩

/-- A job that is not there yet, or one with its limit. -/
inductive Ticket.Step : Option (Nat × Progress) → Option (Nat × Progress) → Prop where
  | submit {limit : Nat} : 1 ≤ limit → limit ≤ 4 → Step none (some (limit, ⟨.pending, 0, false⟩))
  | work {limit : Nat} {x y : Progress} : Progress.Step limit x y →
      Step (some (limit, x)) (some (limit, y))

/-- How many changes are left. -/
def Progress.left (limit : Nat) (x : Progress) : Nat :=
  match x.status, x.asked with
  | .pending, _ => 3 * (limit - x.attempts) + 2
  | .queued, _ => 3 * (limit - x.attempts) + 1
  | .running, false => 3 * (limit - x.attempts) + 3
  | .running, true => 3 * (limit - x.attempts) + 2
  | _, _ => 0

theorem Progress.left_of_isTerminal {limit n : Nat} {c : Bool} {status : JobStatus}
    (h : status.isTerminal = true) : Progress.left limit ⟨status, n, c⟩ = 0 := by
  cases status with
  | pending => cases h
  | queued => cases h
  | running => cases h
  | _ => rfl

theorem Progress.Step.left_lt {limit : Nat} {x y : Progress} (h : Progress.Step limit x y) :
    y.left limit < x.left limit := by
  cases h with
  | dispatch =>
    simp only [left]
    omega
  | @start n c hlt => cases c <;> simp only [left] <;> omega
  | @finish n c status hs =>
    rw [left_of_isTerminal hs]
    cases c <;> simp only [left] <;> omega
  | @retry n c hlt => cases c <;> simp only [left] <;> omega
  | @cancel n c status hs =>
    have hdone : left limit ⟨.cancelled, n, c⟩ = 0 := rfl
    rw [hdone]
    cases status with
    | pending =>
      simp only [left]
      omega
    | queued =>
      simp only [left]
      omega
    | _ => cases hs
  | ask =>
    simp only [left]
    omega

/-- What is left before a job is submitted does not depend on its limit. -/
def Ticket.left : Option (Nat × Progress) → Nat
  | none => 15
  | some (limit, x) => 3 * (4 - limit) + x.left limit

theorem Ticket.Step.left_lt {a b : Option (Nat × Progress)} (h : Ticket.Step a b) :
    Ticket.left b < Ticket.left a := by
  cases h with
  | submit hpos hle =>
    simp only [Ticket.left, Progress.left]
    omega
  | work h =>
    have hlt := h.left_lt
    simp only [Ticket.left]
    omega

/-! ## The system -/

def Job.progress (row : Job) : Progress := ⟨row.status, row.attemptCount,
    row.cancelRequestedAt.isSome⟩

variable {P : Params} {w w' : World (machine P)}

/-- Job `j` as the workflow has it. -/
def ticket (j : Uuid) (w : World (machine P)) : Option (Nat × Progress) :=
  (w.shared.core.db.job j).map fun row => (row.maxAttempts, row.progress)

/-- A statement that fires is a step of the workflow. -/
theorem progress_set {c : Core} {st : JobStmt} {row : Job} (hguard : st.update.guard row = true)
    (hallowed : st.Allowed P c row) : (st.update.set row).maxAttempts = row.maxAttempts ∧
      Progress.Step row.maxAttempts row.progress (st.update.set row).progress := by
  have hclose : ∀ {token : Uuid}, (row.status == .running &&
    row.executionToken == some token) = true →
      row.progress = ⟨.running, row.attemptCount, row.cancelRequestedAt.isSome⟩ := by
    intro token hg
    simp only [Bool.and_eq_true, beq_iff_eq] at hg
    rw [Job.progress, hg.1]
  cases st with
  | markQueued now =>
    have hs : row.status = .pending := by simpa [JobStmt.update, markQueued] using hguard
    refine ⟨rfl, ?_⟩
    rw [Job.progress, hs]
    exact .dispatch
  | markRunning workerId token now lease =>
    have hs : row.status = .queued := by simpa [JobStmt.update, markRunning] using hguard
    refine ⟨rfl, ?_⟩
    rw [Job.progress, hs]
    exact .start (Nat.lt_of_succ_le hallowed.1)
  | markCompleted token now =>
    rw [hclose hguard]
    exact ⟨rfl, .finish rfl⟩
  | markFailed token now error =>
    rw [hclose hguard]
    exact ⟨rfl, .finish rfl⟩
  | requeueRunning token now error =>
    rw [hclose hguard]
    exact ⟨rfl, .retry hallowed⟩
  | markCancelled token now =>
    rw [hclose hguard]
    exact ⟨rfl, .finish rfl⟩
  | markFailedWithoutExecution status now error => exact hallowed.elim
  | cancelPendingOrQueued now => exact ⟨rfl, .cancel hguard⟩
  | requestRunningCancellation now =>
    have hg : row.status = .running ∧ row.cancelRequestedAt = none := by
      simpa [JobStmt.update, requestRunningCancellation] using hguard
    refine ⟨rfl, ?_⟩
    show Progress.Step row.maxAttempts row.progress ⟨row.status, row.attemptCount, true⟩
    rw [Job.progress, hg.1, hg.2]
    exact .ask

/-- One step of the system, for one job. -/
theorem Reachable.ticket_step (h : Reachable P w) {mv : Move (machine P)}
    (hs : (machine P).step mv w = some w') (j : Uuid) :
    ticket j w' = ticket j w ∨ Ticket.Step (ticket j w) (ticket j w') := by
  cases hrow' : w'.shared.core.db.job j with
  | none =>
    left
    cases hrow : w.shared.core.db.job j with
    | none => rw [ticket, ticket, hrow, hrow']
    | some row =>
      obtain ⟨row', hstays⟩ := h.job_stays hs hrow
      rw [hrow'] at hstays
      cases hstays
  | some row' =>
    rcases h.row_cases hs hrow' with hsame | ⟨hnone, owner, type, payload, key,
      retries, t, t', rfl⟩ |
      ⟨row, st, p, ch, hrow, hguard, hallowed, rfl, -⟩
    · left
      rw [ticket, ticket, hrow', hsame]
    · right
      rw [ticket, ticket, hrow', hnone]
      exact .submit (by simp [Job.maxAttempts, newPendingJob, MAX_TOTAL_JOB_ATTEMPTS])
        (by simp [Job.maxAttempts, MAX_TOTAL_JOB_ATTEMPTS])
    · right
      obtain ⟨hlimit, hstep⟩ := progress_set hguard hallowed
      rw [ticket, ticket, hrow', hrow, Option.map_some, Option.map_some, hlimit]
      exact .work hstep

/-- The system refines the workflow of every job. -/
theorem refines_ticket (j : Uuid) :
    (machine P).Refines (fun _ _ => True) (Reachable P) Ticket.Step (ticket j) where
  keeps h _ hs := h.step hs
  step h _ hs := h.ticket_step hs j

/-- **Every run is a run of the workflow, job by job.** -/
theorem system_refines_workflow (h : Reachable P w) (hr : (machine P).Reach w w') (j : Uuid) :
    Relation.ReflTransGen Ticket.Step (ticket j w) (ticket j w') :=
  ((refines_ticket j).run h hr).2

/-- Up to where it is claimed, and on to its completion. -/
theorem system_refines_workflow_completed : ∃ w w' : World (machine .default),
    Reachable .default w ∧
    ticket 10 w = some (4, ⟨.running, 1, false⟩) ∧ ticket 10 w' = some (4, ⟨.completed, 1, false⟩) ∧
    Relation.ReflTransGen Ticket.Step (ticket 10 w) (ticket 10 w') := by
  have hrun : ((machine .default).run claimedMoves (World.init .default)).bind (fun w =>
      ((machine .default).run (completeMoves 2 0) w).map fun w' => (ticket 10 w, ticket 10 w')) =
      some (some (4, ⟨.running, 1, false⟩), some (4, ⟨.completed, 1, false⟩)) := by
    decide +kernel
  obtain ⟨w, hw, hmap⟩ := Option.bind_eq_some_iff.mp hrun
  obtain ⟨w', hw', hviews⟩ := Option.map_eq_some_iff.mp hmap
  rw [Prod.mk.injEq] at hviews
  exact ⟨w, w', .of_run hw, hviews.1, hviews.2, system_refines_workflow (.of_run hw)
    (.of_run hw') 10⟩

/-- **A job is done with after a bounded number of changes.** Whatever fails, is redelivered or is
recovered, the status of a job, its attempt count and its cancellation request change at most three
times for each start it may have, and three times more. -/
theorem job_changes_bounded {j : Uuid} {n : Nat}
    (h : (machine P).ObservedBy (fun _ _ => True) (changes (ticket j)) (World.init P) 0 w n)
    {row : Job}
    (hj : w.shared.core.db.job j = some row) : n ≤ 3 * min (row.maxRetries + 1) 4 + 3 := by
  have hle : n + Ticket.left (ticket j w) ≤ Ticket.left (ticket j (World.init P)) :=
    (refines_ticket j).changes_add_rank_le .refl Ticket.Step.left_lt h
  have hview : ticket j w = some (row.maxAttempts, row.progress) := by rw [ticket, hj,
    Option.map_some]
  have hstart : Ticket.left (ticket j (World.init P)) = 15 := rfl
  have hlimit : row.maxAttempts = min (row.maxRetries + 1) 4 := rfl
  rw [hstart, hview, Ticket.left] at hle
  omega

/-- Created, queued, started and completed: four changes, of fifteen. -/
theorem job_changes_bounded_completed : ∃ (w : World (machine .default)) (n : Nat) (row : Job),
    (machine .default).ObservedBy (fun _ _ => True) (changes (ticket 10))
    (World.init .default) 0 w n ∧
    w.shared.core.db.job 10 = some row ∧ n = 4 ∧ n ≤ 3 * min (row.maxRetries + 1) 4 + 3 := by
  have hrun : ((machine .default).observe (changes (ticket 10)) (claimedMoves ++ completeMoves 2 0)
      (World.init .default) 0).bind (fun x => (x.1.shared.core.db.job 10).map fun row =>
      (x.2, row.status)) = some (4, .completed) := by
    decide +kernel
  obtain ⟨⟨w, n⟩, hw, hmap⟩ := Option.bind_eq_some_iff.mp hrun
  obtain ⟨row, hj, hn⟩ := Option.map_eq_some_iff.mp hmap
  rw [Prod.mk.injEq] at hn
  have hobserved : (machine .default).ObservedBy (fun _ _ => True) (changes (ticket 10))
      (World.init .default) 0 w n :=
    .of_observe (fun _ _ => trivial) hw
  exact ⟨w, n, row, hobserved, hj, hn.1, job_changes_bounded hobserved hj⟩

end CloudJob
