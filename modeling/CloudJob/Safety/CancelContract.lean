import CloudJob.Lib.Observer
import CloudJob.Text
import CloudJob.Contract.Staged
import CloudJob.Safety.Cancellation

/-!
# `Safety/CancelContract.lean` — what a caller of `cancel_job` can count on

The row is locked before it is looked at, and the lock is given up with the transaction. So the row
that `cancel_job` decides on is the committed one, and the row it leaves is the one it decided on,
rewritten by at most one of its two updates. What the caller is told was read later, in a
transaction of its own: it is the row that was left unless somebody has changed it by then.

`cancelling` says which calls the text of `cancel_job` can make, with what it has in hand; `Stands`
ties that to the database and to what an observer of the row lock has noted. -/

set_option autoImplicit false

namespace CloudJob

open Lib

variable {P : Params} {α : Type} {u : CurrentUserDTO} {j : Uuid}

/-! ## The text of `cancel_job` -/

/-- A row that `cancel_job` refuses to cancel. -/
def Job.notCancellable (row : Job) : Prop := row.status = .completed ∨ row.status = .failed

/-- A row that is cancelled, or running with a request to stop. -/
def Job.isCancelling (row : Job) : Prop :=
  row.status = .cancelled ∨ row.status = .running ∧ row.cancelRequestedAt.isSome = true

theorem Job.isCancelling.cancellable {row : Job} (h : row.isCancelling) : ¬ row.notCancellable := by
  intro hno
  rcases h with h | ⟨h, -⟩ <;> rcases hno with hno | hno <;> rw [h] at hno <;> cases hno

/-- The update `cancel_job` makes to such a row. -/
def JobStmt.cancels (row : Job) : JobStmt → Prop
  | .cancelPendingOrQueued _ => row.status.isDispatchable = true
  | .requestRunningCancellation _ => row.status = .running
  | _ => False

theorem JobStmt.cancels.cancellable {row : Job} {st : JobStmt} (h : st.cancels row) :
    ¬ row.notCancellable := by
  cases st with
  | cancelPendingOrQueued now =>
    have hd : row.status.isDispatchable = true := h
    intro hno
    rcases hno with hno | hno <;> rw [hno] at hd <;> cases hd
  | requestRunningCancellation now =>
    have hr : row.status = .running := h
    intro hno
    rcases hno with hno | hno <;> rw [hr] at hno <;> cases hno
  | _ => exact h.elim

/-- An update that matches leaves the row cancelling. -/
theorem JobStmt.cancels.set {row : Job} {st : JobStmt} (h : st.cancels row) :
    (st.update.set row).isCancelling := by
  cases st with
  | cancelPendingOrQueued now => exact .inl rfl
  | requestRunningCancellation now => exact .inr ⟨h, rfl⟩
  | _ => exact h.elim

/-- One that does not had nothing to do. -/
theorem JobStmt.cancels.of_not_guard {row : Job} {st : JobStmt} (h : st.cancels row)
    (hg : st.update.guard row = false) : row.isCancelling := by
  cases st with
  | cancelPendingOrQueued now =>
    have hd : row.status.isDispatchable = true := h
    rw [show (JobStmt.cancelPendingOrQueued now).update.guard row =
      row.status.isDispatchable from rfl, hd] at hg
    cases hg
  | requestRunningCancellation now =>
    have hr : row.status = .running := h
    refine .inr ⟨hr, ?_⟩
    cases hc : row.cancelRequestedAt with
    | some t => rfl
    | none => simp [JobStmt.update, CloudJob.requestRunningCancellation, hr, hc] at hg
  | _ => exact h.elim

/-- How far a call has come with the row it was asked for. -/
inductive Cancelling where
  | start
  /-- There is no such row for this user. -/
  | absent
  | locked (row : Job)
  /-- Its update `st` of the row has matched. -/
  | wrote (row : Job) (st : JobStmt)
  /-- Its transaction is over, and there was nothing to write. -/
  | kept (row : Job)
  /-- Its transaction is over, with the exception that refuses `row`. -/
  | refused (row : Job)
  /-- Its transaction is over and left `row`; the row it has read last is `seen`. -/
  | left (row seen : Job)
  /-- It did not find the row again. -/
  | gone
  /-- A call has failed before anything was written. -/
  | broken
  /-- A call has failed after that. -/
  | torn

/-- It has written to the row it locked. -/
def Cancelling.hasWritten : Cancelling → Bool
  | .wrote _ _ | .left _ _ | .gone | .torn => true
  | _ => false

/-- Where a failure leads. -/
def Cancelling.failed (q : Cancelling) : Cancelling := if q.hasWritten then .torn else .broken

/-- Nothing is written but one update of the row that was locked and its log, nothing is announced
before that is committed, and the transaction is left without a commit only where there is nothing
to write. -/
@[reducible] def cancelling (u : CurrentUserDTO) (j : Uuid) : Discipline sig where
  State := Cancelling
  ok q o := match o with
    | .now | .aenter => True
    | .selectJobForUpdate i owner =>
        q = .start ∧ i = j ∧ owner = JobService.lookupScope u
    | .write (.updateJob i st) => i = j ∧ ∃ row, q = .locked row ∧ st.cancels row
    | .write (.insertLog _) | .commit => ∃ row st, q = .wrote row st
    | .selectJob i owner => i = j ∧ owner = none ∧ ∃ row seen, q = .left row seen
    | .redisInvalidate _ | .redisPublish _ => ∃ row seen, q = .left row seen
    | .aexit raised => match q with
      | .locked row => if raised then row.notCancellable else row.isCancelling
      | .absent | .left _ _ | .gone | .broken | .torn => True
      | _ => False
    | _ => False
  may q o r := match o, r with
    | .now, .error _ | .aenter, .error _ => False
    | .selectJobForUpdate i _, .ok (some row) => row.id = i
    | .write (.updateJob _ st), .ok done => ∀ row, q = .locked row → done = st.update.guard row
    | _, .error e => e ≠ .jobNotCancellable
    | _, .ok _ => True
  next q o r := match o, r with
    | .selectJobForUpdate _ _, .ok none => .absent
    | .selectJobForUpdate _ _, .ok (some row) => .locked row
    | .write (.updateJob _ st), .ok true => match q with
      | .locked row => .wrote row st
      | q => q
    | .commit, .ok _ => match q with
      | .wrote row st => .left (st.update.set row) (st.update.set row)
      | q => q
    | .selectJob _ _, .ok none => .gone
    | .selectJob _ _, .ok (some seen) => match q with
      | .left row _ => .left row seen
      | q => q
    | .aexit raised, .ok _ => match q with
      | .locked row => if raised then .refused row else .kept row
      | q => q
    | .redisInvalidate _, _ | .redisPublish _, _ => q
    | _, .error _ => q.failed
    | _, .ok _ => q

/-- It has found no row, or a call of its own has failed. -/
def Cancelling.isStuck : Cancelling → Bool
  | .absent | .gone | .broken | .torn => true
  | _ => false

/-- How the call ends: with the row it has read last, with a refusal, or because it got no
further. -/
def Cancelling.Ends : Except Exc JobPublicDTO → Cancelling → Prop
  | .ok dto, q => ∃ row seen, (q = .kept row ∧ seen = row ∨ q = .left row seen) ∧ row.isCancelling ∧
      dto = toJobPublicDto (toStoredJobDto seen)
  | .error e, q => e = .jobNotCancellable ∧ (∃ row, q = .refused row ∧ row.notCancellable) ∨
      e ≠ .jobNotCancellable ∧ q.isStuck = true

/-- How the body of its unit of work ends. -/
def Cancelling.Leaves : Except Exc JobPublicDTO → Cancelling → Prop
  | .ok dto, q => ∃ row seen, (q = .locked row ∧ seen = row ∨ q = .left row seen) ∧
      row.isCancelling ∧
      dto = toJobPublicDto (toStoredJobDto seen)
  | .error e, q => e = .jobNotCancellable ∧ (∃ row, q = .locked row ∧ row.notCancellable) ∨
      e ≠ .jobNotCancellable ∧ q.isStuck = true

/-- How the transaction that reads the row again ends. -/
def Cancelling.Reads (row : Job) : Except Exc JobPublicDTO → Cancelling → Prop
  | .ok dto, q => ∃ seen, q = .left row seen ∧ dto = toJobPublicDto (toStoredJobDto seen)
  | .error e, q => e ≠ .jobNotCancellable ∧ q.isStuck = true

/-- Leaving the outer unit of work. -/
theorem Cancelling.Leaves.exit {r : Except Exc JobPublicDTO} {q : Cancelling} (h : Leaves r q) :
    Exits (cancelling u j) Ends r q := by
  cases r with
  | ok dto =>
    obtain ⟨row, seen, hq, hrow, rfl⟩ := h
    rcases hq with ⟨rfl, rfl⟩ | rfl
    · exact .perform hrow (fun _ _ => ⟨seen, seen, .inl ⟨rfl, rfl⟩, hrow, rfl⟩) fun e he =>
        .inr ⟨he, rfl⟩
    · exact .perform trivial (fun _ _ => ⟨row, seen, .inr rfl, hrow, rfl⟩) fun e he =>
        .inr ⟨he, rfl⟩
  | error e =>
    rcases h with ⟨rfl, row, rfl, hrow⟩ | ⟨hne, hstuck⟩
    · exact .perform hrow (fun _ _ => .inl ⟨rfl, row, rfl, hrow⟩) fun e' he' => .inr ⟨he', rfl⟩
    · cases q with
      | absent => exact .perform trivial (fun _ _ => .inr ⟨hne, rfl⟩) fun e' he' => .inr ⟨he', rfl⟩
      | gone => exact .perform trivial (fun _ _ => .inr ⟨hne, rfl⟩) fun e' he' => .inr ⟨he', rfl⟩
      | broken => exact .perform trivial (fun _ _ => .inr ⟨hne, rfl⟩) fun e' he' => .inr ⟨he', rfl⟩
      | torn => exact .perform trivial (fun _ _ => .inr ⟨hne, rfl⟩) fun e' he' => .inr ⟨he', rfl⟩
      | _ => cases hstuck

namespace JobService

theorem loadExistingJobById_obeys (row seen : Job) :
    (cancelling u j).Obeys (loadExistingJobById j) (Cancelling.Reads row) (.left row seen) := by
  refine obeys_withUow trivial (fun _ => ?_) fun _ he => he.elim
  unfold Jobs.getById
  simp only [Prog.bind_eq, Prog.pure_eq, Prog.bind_assoc, Prog.ret_bind]
  refine .perform ⟨rfl, rfl, row, seen, rfl⟩ (fun found _ => ?_) fun e he => ?_
  · cases found with
    | none => exact .perform trivial (fun _ _ => ⟨nofun, rfl⟩) fun e he => ⟨he, rfl⟩
    | some found => exact .perform trivial (fun _ _ => ⟨found, rfl, rfl⟩) fun e he => ⟨he, rfl⟩
  · exact .perform trivial (fun _ _ => ⟨he, rfl⟩) fun e' he' => ⟨he', rfl⟩

/-- Nothing that is told or not told matters to the rest. -/
theorem told_obeys {m : Code Unit} {row seen : Job} (hm : m.Asks fun o : Op =>
      (∃ owner, o = .redisInvalidate owner) ∨ ∃ ev, o = .redisPublish ev) :
    (cancelling u j).Obeys (m.tryCatch fun _ => .ret ())
      (fun r q => r = .ok () ∧ q = .left row seen)
      (.left row seen) := by
  have hkeep : m.Asks fun o => ∀ q, q = .left row seen →
      (cancelling u j).ok q o ∧ ∀ r, (cancelling u j).next q o r = .left row seen := by
    refine hm.mono fun o ho q hq => ?_
    obtain ⟨owner, rfl⟩ | ⟨ev, rfl⟩ := ho
    · exact ⟨⟨row, seen, hq⟩, fun _ => hq⟩
    · exact ⟨⟨row, seen, hq⟩, fun _ => hq⟩
  exact .suppress ((Discipline.Obeys.of_asks hkeep rfl).mono fun _ _ hq => ⟨fun _ _ => rfl, hq⟩)

/-- What follows an update that has matched. -/
theorem finishCancel_obeys {row : Job} {st : JobStmt} {message : String} (hid : row.id = j)
    (h : st.cancels row) :
    (cancelling u j).Obeys (finishCancel (toStoredJobDto row) message) Cancelling.Leaves
    (.wrote row st) := by
  unfold finishCancel JobLogs.createSystemLog utcNow CloudJob.commit
  simp only [Prog.bind_eq, Prog.pure_eq, Prog.bind_assoc, Prog.ret_bind]
  refine .perform trivial (fun t _ => ?_) fun _ he => he.elim
  refine .perform ⟨row, st, rfl⟩ (fun done _ => ?_) fun e he => .inr ⟨he, rfl⟩
  refine .perform ⟨row, st, rfl⟩ (fun _ _ => ?_) fun e he => .inr ⟨he, rfl⟩
  refine .bind ((told_obeys (.perform (.inl ⟨_, rfl⟩))).mono fun r q hr => ?_)
  obtain ⟨rfl, rfl⟩ := hr
  refine .bind ?_
  rw [show (toStoredJobDto row).id = j from hid]
  refine (loadExistingJobById_obeys _ _).mono fun r q hr => ?_
  cases r with
  | error e => exact .inr hr
  | ok dto =>
    obtain ⟨seen, rfl, rfl⟩ := hr
    refine .bind ((told_obeys (notes_notifyJobStateChanged _)).mono fun r q hr => ?_)
    obtain ⟨rfl, rfl⟩ := hr
    exact ⟨_, seen, .inr rfl, h.set, rfl⟩

/-- One of the two updates, and what follows it. -/
theorem cancelBranch_obeys {row : Job} {st : JobStmt} {message : String} (hid : row.id = j)
    (h : st.cancels row) : (cancelling u j).Obeys ((Jobs.update row.id st).bind fun done =>
        if done then finishCancel (toStoredJobDto row) message
        else .ret (toJobPublicDto (toStoredJobDto row)))
      Cancelling.Leaves (.locked row) := by
  refine .perform ⟨hid, row, rfl, h⟩ (fun done hd => ?_) fun e he => .inr ⟨he, rfl⟩
  have hguard : done = st.update.guard row := hd row rfl
  cases done with
  | true => exact finishCancel_obeys hid h
  | false => exact ⟨row, row, .inl ⟨rfl, rfl⟩, h.of_not_guard hguard.symm, rfl⟩

theorem cancelJob_obeys (u : CurrentUserDTO) (j : Uuid) :
    (cancelling u j).Obeys (cancelJob u j) Cancelling.Ends .start := by
  unfold cancelJob utcNow
  simp only [Prog.bind_eq]
  refine .perform trivial (fun now _ => ?_) fun _ he => he.elim
  refine obeys_withUow trivial (fun _ => .mono (fun r q hr => Cancelling.Leaves.exit hr) ?_)
    fun _ he => he.elim
  rw [loadAuthorizedJobForUpdate_eq, Prog.bind_assoc]
  refine .perform ⟨rfl, rfl, rfl⟩ (fun found hid => ?_) fun e he => .inr ⟨he, rfl⟩
  cases found with
  | none => exact .inr ⟨nofun, rfl⟩
  | some row =>
    have hid : row.id = j := hid
    show (cancelling u j).Obeys (if row.status.isDispatchable = true then _ else
      if row.status = .running then _ else if row.status = .completed ∨
        row.status = .failed then _ else _) _ _
    by_cases hd : row.status.isDispatchable = true
    · rw [if_pos hd]
      exact cancelBranch_obeys hid hd
    rw [if_neg hd]
    by_cases hrun : row.status = .running
    · rw [if_pos hrun]
      exact cancelBranch_obeys hid hrun
    rw [if_neg hrun]
    by_cases hno : row.status = .completed ∨ row.status = .failed
    · rw [if_pos hno]
      exact .inl ⟨rfl, row, rfl, hno⟩
    rw [if_neg hno]
    have hcancelled : row.status = .cancelled := by
      cases hs : row.status with
      | cancelled => rfl
      | running => exact absurd hs hrun
      | completed => exact absurd (.inl hs) hno
      | failed => exact absurd (.inr hs) hno
      | _ =>
        rw [hs] at hd
        exact absurd rfl hd
    exact ⟨row, row, .inl ⟨rfl, rfl⟩, .inl hcancelled, rfl⟩

end JobService

/-! ## The row lock -/

/-- What is noted of the lock of process `p` on the row of `j`: the committed row when it took the
lock and when it gave it up, and whether a call of its own has failed, or it has died. -/
structure RowNote where
  taken : Option Job
  left : Option Job
  failed : Bool

def RowNote.init : RowNote := ⟨none, none, false⟩

def RowNote.step (p : Pid) (j : Uuid) (s s' : Shared) (failed : Bool) (ν : RowNote) : RowNote where
  taken := if s.locks (.job j) ≠ some p ∧ s'.locks (.job j) = some p then
    s'.core.db.job j else ν.taken
  left := if s.locks (.job j) = some p ∧ s'.locks (.job j) ≠ some p then
    s'.core.db.job j else ν.left
  failed := ν.failed || failed

/-- A call of `p` fails at this move, or `p` dies. -/
def failsFor (p : Pid) : Move (machine P) → Bool
  | .run q ch => q == p && ch.isFailure
  | .crash q => q == p
  | _ => false

def noteRow (p : Pid) (j : Uuid) : Notes (machine P) RowNote :=
  fun w mv w' ν => ν.step p j w.shared w'.shared (failsFor p mv)

section Stands

variable {p : Pid} {s s' : Shared} {ν : RowNote} {q : Cancelling} {o : Op} {ch : Choice} {f : Bool}

theorem RowNote.step_same (h : s'.locks (.job j) = some p ↔ s.locks (.job j) = some p) :
    ν.step p j s s' f = { ν with failed := ν.failed || f } := by
  by_cases hs : s.locks (.job j) = some p
  · simp [RowNote.step, hs, h.mpr hs]
  · simp [RowNote.step, hs, mt h.mp hs]

/-- Nothing is staged, and nothing of what was done is there to be seen. -/
structure Clean (p : Pid) (s : Shared) : Prop where
  staged : s.staged p = []
  history : ∀ en ∈ s.core.history, en.pid ≠ p

/-- What a call that has come this far knows of the row, and what it has done. -/
def Cancelling.Stands (p : Pid) (j : Uuid) (s : Shared) (ν : RowNote) : Cancelling → Prop
  | .start | .absent => Clean p s ∧ s.locks (.job j) ≠ some p ∧ ν.taken = none
  | .locked row => Clean p s ∧ s.locks (.job j) = some p ∧ ν.taken = some row ∧
      s.core.db.job j = some row
  | .wrote row st => (∃ l, s.staged p = .updateJob j st :: l ∧ ∀ x ∈ l, x.rows = []) ∧
      s.locks (.job j) = some p ∧ ν.taken = some row ∧ s.core.db.job j = some row ∧
      st.cancels row ∧ st.update.guard row = true
  | .kept row => Clean p s ∧ s.locks (.job j) ≠ some p ∧ ν.taken = some row ∧ ν.left = some row ∧
      row.isCancelling
  | .refused row => Clean p s ∧ s.locks (.job j) ≠ some p ∧ ν.taken = some row
  | .left row _ => s.staged p = [] ∧ s.locks (.job j) ≠ some p ∧ ν.left = some row ∧
      ∃ row₀, ν.taken = some row₀ ∧ ¬ row₀.notCancellable
  | .gone => ∃ row₀, ν.taken = some row₀ ∧ ¬ row₀.notCancellable
  | .broken => Clean p s ∧ ν.failed = true ∧ (s.locks (.job j) = some p → ν.taken.isSome = true)
  | .torn => ν.failed = true ∧ ∃ row₀, ν.taken = some row₀ ∧ ¬ row₀.notCancellable

/-- Once it has written, the row it locked is one it can cancel. -/
theorem Cancelling.Stands.cancellable (h : q.Stands p j s ν) (hw : q.hasWritten = true) :
    ∃ row₀, ν.taken = some row₀ ∧ ¬ row₀.notCancellable := by
  cases q with
  | wrote row st =>
    obtain ⟨-, -, ht, -, hc, -⟩ := h
    exact ⟨row, ht, hc.cancellable⟩
  | left row seen => exact h.2.2.2
  | gone => exact h
  | torn => exact h.2
  | _ => cases hw

/-- Until then it has left no trace. -/
theorem Cancelling.Stands.clean (h : q.Stands p j s ν) (hw : q.hasWritten = false) : Clean p s := by
  cases q with
  | wrote row st => cases hw
  | left row seen => cases hw
  | gone => cases hw
  | torn => cases hw
  | _ => exact h.1

/-- More notes of the same row. -/
theorem Cancelling.Stands.note (h : q.Stands p j s ν) (f : Bool) :
    q.Stands p j s { ν with failed := ν.failed || f } := by
  cases q with
  | broken =>
    obtain ⟨hclean, hf, hl⟩ := h
    exact ⟨hclean, by rw [hf]; rfl, hl⟩
  | torn =>
    obtain ⟨hf, ht⟩ := h
    exact ⟨by rw [hf]; rfl, ht⟩
  | _ => exact h

theorem Clean.rely (h : Clean p s) (hr : Rely p s s')
    (hen : ∃ l, s'.core.history = l ++ s.core.history ∧ ∀ en ∈ l, en.pid ≠ p) : Clean p s' := by
  obtain ⟨l, hl, hne⟩ := hen
  refine ⟨hr.staged.trans h.staged, fun en hmem => ?_⟩
  rw [hl] at hmem
  rcases List.mem_append.mp hmem with hmem | hmem
  · exact hne en hmem
  · exact h.history en hmem

/-- Others do not touch what it knows. -/
theorem Cancelling.Stands.rely (h : q.Stands p j s ν) (hr : Rely p s s')
    (hen : ∃ l, s'.core.history = l ++ s.core.history ∧ ∀ en ∈ l, en.pid ≠ p) (f : Bool) :
    q.Stands p j s' (ν.step p j s s' f) := by
  rw [RowNote.step_same (hr.locks _)]
  refine Cancelling.Stands.note ?_ f
  cases q with
  | start => exact ⟨h.1.rely hr hen, mt (hr.locks _).mp h.2.1, h.2.2⟩
  | absent => exact ⟨h.1.rely hr hen, mt (hr.locks _).mp h.2.1, h.2.2⟩
  | locked row => exact ⟨h.1.rely hr hen, (hr.locks _).mpr h.2.1, h.2.2.1,
      (hr.keeps.job h.2.1).trans h.2.2.2⟩
  | wrote row st =>
    obtain ⟨hst, hl, ht, hj, hrest⟩ := h
    exact ⟨hr.staged ▸ hst, (hr.locks _).mpr hl, ht, (hr.keeps.job hl).trans hj, hrest⟩
  | kept row => exact ⟨h.1.rely hr hen, mt (hr.locks _).mp h.2.1, h.2.2⟩
  | refused row => exact ⟨h.1.rely hr hen, mt (hr.locks _).mp h.2.1, h.2.2⟩
  | left row seen => exact ⟨hr.staged.trans h.1, mt (hr.locks _).mp h.2.1, h.2.2⟩
  | gone => exact h
  | broken => exact ⟨h.1.rely hr hen, h.2.1, fun hl => h.2.2 ((hr.locks _).mp hl)⟩
  | torn => exact h

/-! ## Its own calls -/

theorem Clean.released (h : Clean p s) (hr : Released p s s') : Clean p s' :=
  ⟨hr.staged, by rw [hr.history]; exact h.history⟩

/-- The note of a step that gives up the lock. -/
theorem RowNote.step_released (ν : RowNote) (s : Shared) (f : Bool)
    (hl : s'.locks (.job j) ≠ some p) :
    (ν.step p j s s' f).taken = ν.taken ∧ (s.locks (.job j) = some p →
      (ν.step p j s s' f).left = s'.core.db.job j) := by
  refine ⟨?_, fun hs => ?_⟩
  · simp [RowNote.step, hl]
  · simp [RowNote.step, hl, hs]

/-- While it holds the lock, it has noted the row. -/
theorem Cancelling.Stands.taken (h : q.Stands p j s ν) (hl : s.locks (.job j) = some p) :
    ν.taken.isSome = true := by
  have hsome : ∀ {row : Job}, ν.taken = some row → ν.taken.isSome = true :=
    fun ht => by rw [ht]; rfl
  cases q with
  | start => exact absurd hl h.2.1
  | absent => exact absurd hl h.2.1
  | locked row => exact hsome h.2.2.1
  | wrote row st => exact hsome h.2.2.1
  | kept row => exact absurd hl h.2.1
  | refused row => exact absurd hl h.2.1
  | left row seen => exact absurd hl h.2.1
  | gone =>
    obtain ⟨row, ht, -⟩ := h
    exact hsome ht
  | broken => exact h.2.2 hl
  | torn =>
    obtain ⟨-, row, ht, -⟩ := h
    exact hsome ht

/-- A call that fails, or dies, out of its transaction or without leaving it. -/
theorem Cancelling.Stands.fail (h : q.Stands p j s ν) (hs : s' = s ∨ Released p s s') :
    q.failed.Stands p j s' (ν.step p j s s' true) := by
  have htaken : (ν.step p j s s' true).taken = ν.taken := by
    rcases hs with rfl | hr
    · rw [RowNote.step_same Iff.rfl]
    · exact (RowNote.step_released _ _ _ (hr.locks _)).1
  have hfailed : (ν.step p j s s' true).failed = true := by simp [RowNote.step]
  unfold Cancelling.failed
  cases hw : q.hasWritten with
  | true =>
    obtain ⟨row₀, ht, hyes⟩ := h.cancellable hw
    exact ⟨hfailed, row₀, htaken.trans ht, hyes⟩
  | false =>
    have hclean := h.clean hw
    refine ⟨?_, hfailed, fun hl => ?_⟩
    · rcases hs with rfl | hr
      · exact hclean
      · exact hclean.released hr
    · rw [htaken]
      rcases hs with rfl | hr
      · exact h.taken hl
      · exact absurd hl (hr.locks _)

/-- What it locks is the committed row. -/
theorem Cancelling.Stands.lock {owner : Option Uuid} {r : Except Exc (Option Job)}
    (h : Cancelling.start.Stands p j s ν)
    (he : s.exec P.reads p (.selectJobForUpdate j owner) ch = some (r, s')) :
    (cancelling u j).may .start (.selectJobForUpdate j owner) r ∧
    ((cancelling u j).next .start (.selectJobForUpdate j owner) r).Stands p j s'
      (ν.step p j s s' ch.isFailure) := by
  obtain ⟨hclean, hfree, htaken⟩ := h
  rcases exec_selectJobForUpdate_cases hclean.staged he with ⟨text, rfl, hf, rfl⟩ | ⟨rfl, rfl, -⟩ |
    ⟨row, rfl, hrow, rfl⟩
  · rw [hf]
    exact ⟨nofun, Cancelling.Stands.fail (q := .start) ⟨hclean, hfree, htaken⟩ (.inl rfl)⟩
  · rw [RowNote.step_same Iff.rfl]
    exact ⟨trivial, hclean, hfree, htaken⟩
  · have hlocked : (s.lock p [.job j]).locks (.job j) = some p :=
      Shared.locks_lock_self.mpr (.inl (List.mem_singleton_self _))
    refine ⟨Db.job_id hrow, ⟨hclean.staged, hclean.history⟩, hlocked, ?_, hrow⟩
    simp only [RowNote.step, hlocked, ne_eq, hfree, not_false_eq_true, and_self, if_true]
    exact hrow

/-- Its update goes the way its `WHERE` goes on that row. -/
theorem Cancelling.Stands.update {row : Job} {st : JobStmt} {r : Except Exc Bool}
    (h : (Cancelling.locked row).Stands p j s ν) (hst : st.cancels row)
    (he : s.exec P.reads p (.write (.updateJob j st)) ch = some (r, s')) :
    (cancelling u j).may (.locked row) (.write (.updateJob j st)) r ∧
    ((cancelling u j).next (.locked row) (.write (.updateJob j st)) r).Stands p j s'
      (ν.step p j s s' ch.isFailure) := by
  have hstands := h
  obtain ⟨hclean, hlock, htaken, hrow⟩ := h
  have hview : s.view p = s.core.db := by rw [Shared.view, hclean.staged, Db.applyAll_nil]
  have hout : (Stmt.updateJob j st).outcome s.core.db = _ := outcome_updateJob hrow
  rw [← hview] at hout
  rcases exec_write_outcome (fun orig => by rw [hout]; split <;> (intro h; cases h)) he with
    ⟨text, rfl, hf, rfl⟩ |
    ⟨rfl, hno, rfl⟩ | ⟨rfl, hyes, rfl⟩
  · rw [hf]
    exact ⟨fun h => (by cases h), hstands.fail (.inl rfl)⟩
  · have hguard : st.update.guard row = false := by
      by_contra hg
      rw [hout, if_pos (Bool.not_eq_false _ ▸ hg)] at hno
      cases hno
    rw [RowNote.step_same Iff.rfl]
    exact ⟨fun row' hq => by cases hq; exact hguard.symm, hclean, hlock, htaken, hrow⟩
  · have hguard : st.update.guard row = true := by
      by_contra hg
      rw [hout, if_neg hg] at hyes
      cases hyes
    have hlocked : ((s.lock p [.job j]).stage p (.updateJob j st)).locks (.job j) = some p :=
      Shared.locks_lock_self.mpr (.inl (List.mem_singleton_self _))
    rw [show (Stmt.updateJob j st).rows = [.job j] from rfl,
      RowNote.step_same (iff_of_true hlocked hlock)]
    have hstaged :
        ((s.lock p [.job j]).stage p (.updateJob j st)).staged p = [.updateJob j st] := by
      show Function.update s.staged p (s.staged p ++ [.updateJob j st]) p = _
      rw [Function.update_self, hclean.staged]
      rfl
    refine ⟨fun row' hq => ?_, ?_⟩
    · cases hq
      exact hguard.symm
    · show (Cancelling.wrote row st).Stands p j _ _
      exact ⟨⟨[], hstaged, fun _ hx => absurd hx List.not_mem_nil⟩, hlocked, htaken,
        hrow, hst, hguard⟩

theorem Cancelling.Stands.log {row : Job} {st : JobStmt} {log : JobLog} {r : Except Exc Bool}
    (h : (Cancelling.wrote row st).Stands p j s ν)
    (he : s.exec P.reads p (.write (.insertLog log)) ch = some (r, s')) :
    (cancelling u j).may (.wrote row st) (.write (.insertLog log)) r ∧
    ((cancelling u j).next (.wrote row st) (.write (.insertLog log)) r).Stands p j s'
      (ν.step p j s s' ch.isFailure) := by
  have hstands := h
  obtain ⟨⟨l, hl, hrows⟩, hlock, hrest⟩ := h
  rcases exec_write_outcome (fun orig hv => by cases hv) he with ⟨text, rfl, hf, rfl⟩ |
    ⟨rfl, hno, -⟩ | ⟨rfl, -, rfl⟩
  · rw [hf]
    exact ⟨nofun, hstands.fail (.inl rfl)⟩
  · cases hno
  · have hheld : (s.lock p []).locks (.job j) = some p := Shared.locks_lock_self.mpr (.inr hlock)
    have hlocked : ((s.lock p []).stage p (.insertLog log)).locks (.job j) = some p := hheld
    have hstaged : ((s.lock p []).stage p (.insertLog log)).staged p =
        .updateJob j st :: (l ++ [.insertLog log]) := by
      show Function.update s.staged p (s.staged p ++ [.insertLog log]) p = _
      rw [Function.update_self, hl]
      rfl
    refine ⟨trivial, ?_⟩
    rw [show (Stmt.insertLog log).rows = [] from rfl, RowNote.step_same (iff_of_true hlocked hlock)]
    show (Cancelling.wrote row st).Stands p j _ _
    refine ⟨⟨_, hstaged, fun x hx => ?_⟩, hlocked, hrest⟩
    rcases List.mem_append.mp hx with hx | hx
    · exact hrows x hx
    · rw [List.mem_singleton.mp hx]
      rfl

/-- Its commit leaves the row as the update makes it. -/
theorem Cancelling.Stands.commit {row : Job} {st : JobStmt} {r : Except Exc Unit}
    (h : (Cancelling.wrote row st).Stands p j s ν)
    (he : s.exec P.reads p .commit ch = some (r, s')) :
    (cancelling u j).may (.wrote row st) .commit r ∧
    ((cancelling u j).next (.wrote row st) .commit r).Stands p j s'
    (ν.step p j s s' ch.isFailure) := by
  have hstands := h
  obtain ⟨⟨l, hl, hrows⟩, hlock, htaken, hrow, hst, hguard⟩ := h
  have hreleased : ∀ {x : Shared}, x = { s with core := s.core.commit p (s.staged p) } →
      Released p x (x.release p) := fun _ => .release p _
  rcases exec_commit_cases he with ⟨text, rfl, hf, hs'⟩ | ⟨rfl, rfl⟩
  · rw [hf]
    refine ⟨nofun, ?_⟩
    show Cancelling.torn.Stands p j s' _
    rcases hs' with rfl | rfl
    · exact hstands.fail (.inl rfl)
    · refine ⟨by simp [RowNote.step], row, ?_, hst.cancellable⟩
      rw [(RowNote.step_released _ _ _ ((hreleased rfl).locks _)).1, htaken]
  · have hover := (hreleased rfl).spend
    obtain ⟨ht, hleft⟩ := RowNote.step_released ν s ch.isFailure (hover.locks (.job j))
    refine ⟨trivial, ?_⟩
    show (Cancelling.left _ _).Stands p j _ _
    refine ⟨hover.staged, hover.locks _, ?_, row, ht.trans htaken, hst.cancellable⟩
    rw [hleft hlock, hover.db]
    show (s.core.db.applyAll (s.staged p)).job j = _
    rw [hl, Db.applyAll_cons, job_applyAll fun x hx => by rw [hrows x hx]; exact List.not_mem_nil,
      job_updateJob, if_pos rfl, hrow, Option.map_some, JobUpdate.run_of_guard hguard]

/-- Leaving the transaction. -/
theorem Cancelling.Stands.leave {raised : Bool} {r : Except Exc Unit} (h : q.Stands p j s ν)
    (hok : (cancelling u j).ok q (.aexit raised))
    (he : s.exec P.reads p (.aexit raised) ch = some (r, s')) :
    (cancelling u j).may q (.aexit raised) r ∧
    ((cancelling u j).next q (.aexit raised) r).Stands p j s' (ν.step p j s s' ch.isFailure) := by
  rcases exec_aexit_cases he with ⟨text, rfl, hf, rfl⟩ | ⟨rfl, hs'⟩
  · rw [hf]
    exact ⟨nofun, h.fail (.inr (.release p s))⟩
  have hover : Released p s s' := by
    rcases hs' with rfl | rfl
    · exact .release p s
    · exact (Released.release p s).spend
  obtain ⟨ht, hleft⟩ := RowNote.step_released ν s ch.isFailure (hover.locks (.job j))
  refine ⟨trivial, ?_⟩
  cases q with
  | start => exact hok.elim
  | wrote row st => exact hok.elim
  | refused row => exact hok.elim
  | absent => exact ⟨h.1.released hover, hover.locks _, ht.trans h.2.2⟩
  | left row seen =>
    obtain ⟨-, hfree, hrow, row₀, htaken, hyes⟩ := h
    refine ⟨hover.staged, hover.locks _, ?_, row₀, ht.trans htaken, hyes⟩
    rw [RowNote.step_same (iff_of_false (hover.locks _) hfree)]
    exact hrow
  | kept row => exact hok.elim
  | gone =>
    obtain ⟨row₀, htaken, hyes⟩ := h
    exact ⟨row₀, ht.trans htaken, hyes⟩
  | broken =>
    exact ⟨h.1.released hover, by simp [RowNote.step, h.2.1], fun hl => absurd hl (hover.locks _)⟩
  | torn =>
    obtain ⟨hf, row₀, htaken, hyes⟩ := h
    exact ⟨by simp [RowNote.step, hf], row₀, ht.trans htaken, hyes⟩
  | locked row =>
    obtain ⟨hclean, hlock, htaken, hrow⟩ := h
    cases raised with
    | true => exact ⟨hclean.released hover, hover.locks _, ht.trans htaken⟩
    | false =>
      refine ⟨hclean.released hover, hover.locks _, ht.trans htaken, ?_, hok⟩
      rw [hleft hlock, hover.db]
      exact hrow

/-- What it reads again after its transaction is its own affair. -/
theorem Cancelling.Stands.read {row seen : Job} {i : Uuid} {owner : Option Uuid}
    {r : Except Exc (Option Job)} (h : (Cancelling.left row seen).Stands p j s ν)
    (he : s.exec P.reads p (.selectJob i owner) ch = some (r, s')) :
    (cancelling u j).may (.left row seen) (.selectJob i owner) r ∧
    ((cancelling u j).next (.left row seen) (.selectJob i owner) r).Stands p j s'
      (ν.step p j s s' ch.isFailure) := by
  cases ch with
  | answer =>
    cases he
    rw [RowNote.step_same Iff.rfl]
    cases ((s.view p).job i).filter fun x => owner.all (· == x.ownerId) with
    | none => exact ⟨trivial, h.2.2.2⟩
    | some found => exact ⟨trivial, h⟩
  | fails text =>
    cases he
    exact ⟨nofun, h.fail (.inl rfl)⟩
  | _ => cases he

/-- What it tells Redis changes nothing it knows of. -/
theorem Cancelling.Stands.tell {row seen : Job}
    (h : (Cancelling.left row seen).Stands p j s ν)
    (ho : (∃ owner, o = .redisInvalidate owner) ∨ ∃ ev, o = .redisPublish ev) {r : Except Exc o.Ret}
    (he : s.exec P.reads p o ch = some (r, s')) :
    (cancelling u j).may (.left row seen) o r ∧
    ((cancelling u j).next (.left row seen) o r).Stands p j s' (ν.step p j s s' ch.isFailure) := by
  have hsame : s'.staged = s.staged ∧ s'.locks = s.locks ∧
    (cancelling u j).may (.left row seen) o r ∧
      (cancelling u j).next (.left row seen) o r = .left row seen := by
    obtain ⟨owner, rfl⟩ | ⟨ev, rfl⟩ := ho <;> cases ch with
    | answer =>
      cases he
      exact ⟨rfl, rfl, trivial, rfl⟩
    | fails text =>
      cases he
      exact ⟨rfl, rfl, nofun, rfl⟩
    | _ => cases he
  obtain ⟨hstaged, hlocks, hmay, hnext⟩ := hsame
  rw [hnext, RowNote.step_same (by rw [hlocks])]
  exact ⟨hmay, (congrFun hstaged p).trans h.1, hlocks ▸ h.2.1, h.2.2⟩

/-- **One call.** -/
theorem Cancelling.Stands.own {r : Except Exc o.Ret} (h : q.Stands p j s ν)
    (hok : (cancelling u j).ok q o) (he : s.exec P.reads p o ch = some (r, s')) :
    (cancelling u j).may q o r ∧
    ((cancelling u j).next q o r).Stands p j s' (ν.step p j s s' ch.isFailure) := by
  cases o with
  | now => cases ch with
    | time t =>
      simp only [Shared.exec] at he
      split at he
      · cases he
        rw [RowNote.step_same Iff.rfl]
        exact ⟨trivial, h.note _⟩
      · cases he
    | _ => cases he
  | aenter => cases ch with
    | answer =>
      cases he
      rw [RowNote.step_same Iff.rfl]
      exact ⟨trivial, h.note _⟩
    | _ => cases he
  | selectJobForUpdate i owner =>
    obtain ⟨rfl, rfl, -⟩ := hok
    exact h.lock he
  | write st => cases st with
    | updateJob i st =>
      obtain ⟨rfl, row, rfl, hst⟩ := hok
      exact h.update hst he
    | insertLog log =>
      obtain ⟨row, st, rfl⟩ := hok
      exact h.log he
    | _ => exact hok.elim
  | commit =>
    obtain ⟨row, st, rfl⟩ := hok
    exact h.commit he
  | selectJob i owner =>
    obtain ⟨-, -, row, seen, rfl⟩ := hok
    exact h.read he
  | redisInvalidate owner =>
    obtain ⟨row, seen, rfl⟩ := hok
    exact h.tell (.inl ⟨owner, rfl⟩) he
  | redisPublish ev =>
    obtain ⟨row, seen, rfl⟩ := hok
    exact h.tell (.inr ⟨ev, rfl⟩) he
  | aexit raised => exact h.leave hok he
  | _ => exact hok.elim

end Stands

/-! ## Along a run -/

section Run

variable {p : Pid} {ν : RowNote} {w w' : World (machine P)} {mv : Move (machine P)}

/-- How the operation ends. -/
def Cancelling.Done : Except Exc Outcome → Cancelling → Prop
  | .ok out, q => ∃ dto, out = .job dto ∧ Cancelling.Ends (.ok dto) q
  | .error e, q => Cancelling.Ends (.error e) q

theorem cancelling_prog (u : CurrentUserDTO) (j : Uuid) :
    (cancelling u j).Obeys (Call.prog P (.cancelJob u j)) Cancelling.Done .start := by
  refine .bind ((JobService.cancelJob_obeys u j).mono fun r q hr => ?_)
  cases r with
  | ok dto => exact ⟨dto, rfl, hr⟩
  | error e => exact hr

/-- A call of `p` for `j` stands somewhere on its way where `I` holds. -/
def Standing (I : Cancelling → Prop) (p : Pid) (j : Uuid) (w : World (machine P))
    (ν : RowNote) : Prop :=
  ∀ u prog, w.procs p = some (.cancelJob u j, prog) →
    ∃ q, (cancelling u j).Obeys prog Cancelling.Done q ∧ q.Stands p j w.shared ν ∧ I q

/-- A process that has not been started has left no trace. -/
theorem Reachable.unseen (h : Reachable P w) (hp : w.procs p = none) :
    ∀ en ∈ w.shared.core.history, en.pid ≠ p := by
  intro en hen heq
  exact h.entry_calls en hen (heq ▸ h.calls_none hp)

theorem Reachable.start_clean (h : Reachable P w) (hp : w.procs p = none) {c : Call} {s : Shared}
    (hs : w.shared.start P p c = some s) : Clean p s ∧ s.locks (.job j) ≠ some p := by
  refine ⟨⟨start_staged hs, ?_⟩, ?_⟩
  · rw [start_core hs]
    exact h.unseen hp
  · unfold Shared.start at hs
    split at hs
    · cases hs
      exact Shared.locks_release_self _
    · cases hs

theorem step_quiet_of_ne (hs : (machine P).step mv w = some w') (hpid : mv.pid ≠ some p) :
    ∃ l, w'.shared.core.history = l ++ w.shared.core.history ∧ ∀ en ∈ l, en.pid ≠ p := by
  obtain ⟨l, hl, hby⟩ := step_history hs
  exact ⟨l, hl, fun en hen heq => hpid (heq ▸ (hby en hen).1)⟩

/-- **One step.** What it leads to depends on where the call stands only if the step is a call of
`p`, and a failure leads to `failed`. -/
theorem Standing.step {I I' : Cancelling → Prop} (hst : Standing I p j w ν) (h : Reachable P w)
    (hnone : w.procs p = none → ν.taken = none ∧ I' .start) (hs : (machine P).step mv w = some w')
    (hown : ∀ {u q o r ch s'}, w.shared.calls p = some (.cancelJob u j) → mv = .run p ch →
      q.Stands p j w.shared ν → I q → (cancelling u j).ok q o →
      w.shared.exec P.reads p o ch = some (r, s') → I' ((cancelling u j).next q o r))
    (hdead : ∀ q, q.Stands p j w.shared ν → I q → mv = .crash p → I' q.failed)
    (hother : ∀ q, I q → mv.pid ≠ some p → I' q) :
    Standing I' p j w' (noteRow p j w mv w' ν) := by
  intro u prog hp
  by_cases hpid : mv.pid = some p
  · rcases Machine.step_cases hs with ⟨p', c, s, rfl, hfree, hstart, rfl⟩ |
      ⟨p', ch, c, o, k, r, s, rfl, hrun, he, rfl⟩ | ⟨p', c, prog', rfl, hrun, rfl⟩ |
      ⟨e, s, rfl, -, rfl⟩
    · cases hpid
      simp only [Function.update_self, Option.some.injEq, Prod.mk.injEq] at hp
      obtain ⟨rfl, rfl⟩ := hp
      have hstart : w.shared.start P p (.cancelJob u j) = some s := hstart
      obtain ⟨hclean, hlock⟩ := h.start_clean (j := j) hfree hstart
      obtain ⟨htaken, hI⟩ := hnone hfree
      exact ⟨.start, cancelling_prog u j, ⟨hclean, hlock,
        (RowNote.step_released _ _ _ hlock).1.trans htaken⟩, hI⟩
    · cases hpid
      simp only [Function.update_self, Option.some.injEq, Prod.mk.injEq] at hp
      obtain ⟨rfl, rfl⟩ := hp
      obtain ⟨q, hobeys, hq, hI⟩ := hst u _ hrun
      obtain ⟨hmay, hq'⟩ := hq.own hobeys.1 he
      refine ⟨_, hobeys.2 r hmay, ?_, hown (h.calls hrun) rfl hq hI hobeys.1 he⟩
      simpa [noteRow, failsFor] using hq'
    · cases hpid
      simp only [Function.update_self, Option.some.injEq, Prod.mk.injEq] at hp
      obtain ⟨rfl, rfl⟩ := hp
      obtain ⟨q, -, hq, hI⟩ := hst u _ hrun
      have hfail := hq.fail (.inr (.release p w.shared))
      refine ⟨q.failed, .inr ⟨nofun, ?_⟩, ?_, hdead q hq hI rfl⟩
      · unfold Cancelling.failed
        split <;> rfl
      · simpa [noteRow, failsFor] using hfail
    · cases hpid
  · rw [Machine.step_procs_other hs hpid] at hp
    obtain ⟨q, hobeys, hq, hI⟩ := hst u prog hp
    exact ⟨q, hobeys, hq.rely (h.rely hs hpid) (step_quiet_of_ne hs hpid) _, hother q hI hpid⟩

theorem noteRow_none (h : Reachable P w) (hnone : w.procs p = none → ν.taken = none)
    (hs : (machine P).step mv w = some w') (hp : w'.procs p = none) :
    (noteRow p j w mv w' ν).taken = none := by
  obtain ⟨hfree, hno⟩ := Machine.step_procs_none hs hp
  have hpid : mv.pid ≠ some p := by
    intro heq
    rcases Machine.step_cases hs with ⟨p', c, s, rfl, -, -, rfl⟩ |
      ⟨p', ch, c, o, k, r, s, rfl, hrun, -, rfl⟩ |
      ⟨p', c, prog', rfl, hrun, rfl⟩ | ⟨e, s, rfl, -, rfl⟩
    · cases heq
      exact hno c rfl
    · cases heq
      rw [hfree] at hrun
      cases hrun
    · cases heq
      rw [hfree] at hrun
      cases hrun
    · cases heq
  show (RowNote.step p j w.shared w'.shared _ ν).taken = none
  rw [RowNote.step_same ((h.rely hs hpid).locks _)]
  exact hnone hfree

/-- **A run.** -/
theorem standing {ok : World (machine P) → Move (machine P) → Prop}
    (h : (machine P).ObservedBy ok (noteRow p j) (World.init P) .init w ν) :
    Reachable P w ∧ (w.procs p = none → ν.taken = none) ∧ Standing (fun _ => True) p j w ν := by
  refine h.invariant (I := fun w ν => Reachable P w ∧ (w.procs p = none → ν.taken = none) ∧
    Standing (fun _ => True) p j w ν) ⟨.refl, fun _ => rfl, fun u prog hp => by cases hp⟩
    fun w₁ w₂ ν₁ m hi _ hs => ?_
  obtain ⟨hr, hnone, hst⟩ := hi
  exact ⟨hr.step hs, noteRow_none hr hnone hs, hst.step hr (fun hp => ⟨hnone hp, trivial⟩) hs
    (fun _ _ _ _ _ _ => trivial) (fun _ _ _ _ => trivial) fun _ _ _ => trivial⟩

/-- What the answer of a call says of the row it found and of the row it left. -/
theorem Standing.ended {I : Cancelling → Prop} (hst : Standing I p j w ν) {u : CurrentUserDTO}
    {prog : Code Outcome} (hp : w.procs p = some (.cancelJob u j, prog)) :
    (∀ out, prog = .ret out → ∃ row, ν.left = some row ∧ row.isCancelling) ∧
    (prog = .raise .jobNotCancellable → ∃ row, ν.taken = some row ∧ row.notCancellable) ∧
    ∀ row, ν.taken = some row → row.notCancellable → Clean p w.shared ∧
      (∀ out, prog ≠ .ret out) ∧ ∀ e, prog = .raise e → e = .jobNotCancellable ∨
      ν.failed = true := by
  obtain ⟨q, hobeys, hq, -⟩ := hst u prog hp
  have hret : ∀ out, prog = .ret out → ∃ row, ν.left = some row ∧ row.isCancelling ∧
      ∃ row₀, ν.taken = some row₀ ∧ ¬ row₀.notCancellable := by
    intro out heq
    subst heq
    obtain ⟨dto, -, row, seen, hq', hrow, -⟩ := hobeys
    rcases hq' with ⟨rfl, -⟩ | rfl
    · exact ⟨row, hq.2.2.2.1, hrow, row, hq.2.2.1, hrow.cancellable⟩
    · exact ⟨row, hq.2.2.1, hrow, hq.2.2.2⟩
  refine ⟨fun out heq => ?_, fun heq => ?_, fun row htaken hno =>
    ⟨?_, fun out heq => ?_, fun e heq => ?_⟩⟩
  · obtain ⟨row, hleft, hrow, -⟩ := hret out heq
    exact ⟨row, hleft, hrow⟩
  · subst heq
    rcases hobeys with ⟨-, row, rfl, hrow⟩ | ⟨hne, -⟩
    · exact ⟨row, hq.2.2, hrow⟩
    · exact absurd rfl hne
  · refine hq.clean ?_
    cases hw : q.hasWritten with
    | false => rfl
    | true =>
      obtain ⟨row₀, ht, hyes⟩ := hq.cancellable hw
      rw [htaken] at ht
      cases ht
      exact absurd hno hyes
  · obtain ⟨-, -, -, row₀, ht, hyes⟩ := hret out heq
    rw [htaken] at ht
    cases ht
    exact hyes hno
  · subst heq
    rcases hobeys with ⟨rfl, -⟩ | ⟨-, hstuck⟩
    · exact .inl rfl
    · cases q with
      | absent =>
        rw [hq.2.2] at htaken
        cases htaken
      | gone =>
        obtain ⟨row₀, ht, hyes⟩ := hq
        rw [htaken] at ht
        cases ht
        exact absurd hno hyes
      | broken => exact .inr hq.2.1
      | torn => exact .inr hq.1
      | _ => cases hstuck

/-! ## The column, once more -/

theorem cancelRequestedAt_stays {st : JobStmt} {row : Job} {t : Datetime}
    (hg : st.update.guard row = true)
    (hc : row.cancelRequestedAt = some t) : (st.update.set row).cancelRequestedAt = some t := by
  cases st with
  | requestRunningCancellation now =>
    simp only [JobStmt.update, requestRunningCancellation, Bool.and_eq_true,
      Option.isNone_iff_eq_none] at hg
    rw [hg.2] at hc
    cases hc
  | _ => exact hc

/-- A request is neither overwritten nor cleared. -/
theorem Reachable.cancelRequestedAt_step (h : Reachable P w) (hs : (machine P).step mv w = some w')
    {row : Job} {t : Datetime} (hj : w.shared.core.db.job j = some row)
    (hc : row.cancelRequestedAt = some t) :
    ∃ row', w'.shared.core.db.job j = some row' ∧ row'.cancelRequestedAt = some t := by
  obtain ⟨row', hj', -⟩ := (h.extends hs).jobs hj
  refine ⟨row', hj', ?_⟩
  rcases h.row_cases hs hj' with hsame | ⟨hnone, -⟩ | ⟨row₀, st, -, -, hrow, hg, -, rfl, -⟩
  · rw [hj] at hsame
    cases hsame
    exact hc
  · rw [hj] at hnone
    cases hnone
  · rw [hj] at hrow
    cases hrow
    exact cancelRequestedAt_stays hg hc

/-! ## A second call -/

/-- None of those in question commits a change of the row of `j`. -/
def LeavesRow (j : Uuid) (who : Pid → Prop) (w : World (machine P))
    (mv : Move (machine P)) : Prop :=
  ∀ q ch c k, mv = .run q ch → who q → w.procs q = some (c, .call .commit k) →
    ∀ st, .updateJob j st ∉ w.shared.staged q

theorem LeavesRow.row {who : Pid → Prop} (hl : LeavesRow j who w mv) (h : Reachable P w)
    (hs : (machine P).step mv w = some w')
    (hwho : ∀ q ch c k, mv = .run q ch → w.procs q = some (c, .call .commit k) → who q) {row : Job}
    (hj : w.shared.core.db.job j = some row) : w'.shared.core.db.job j = some row := by
  rcases h.commits hs with hq | ⟨q, ch, c, k, hmv, hp, htxn, hdb, -⟩
  · rw [Db.job, hq.jobs]
    exact hj
  · obtain ⟨row', hj', -⟩ := job_applyAll_stays (l := w.shared.staged q) hj
    rw [hdb]
    rcases htxn.row_cases hj' with hsame | ⟨hnone, -⟩ | ⟨row₀, st, -, -, -, -, hmem⟩
    · rw [hj'] at *
      exact hsame.symm.trans hj
    · rw [hj] at hnone
      cases hnone
    · exact absurd hmem (hl q ch c k hmv (hwho q ch c k hmv hp) hp st)

/-- The transaction of the first call is over, and what it has read since is the row as it is. -/
def Cancelling.Fresh (found : Option Job) : Cancelling → Prop
  | .start | .absent | .locked _ | .wrote _ _ => False
  | .kept row => found = some row
  | .left row seen => found = some row ∧ seen = row
  | _ => True

theorem Cancelling.Fresh.failed {found : Option Job} (q : Cancelling) : q.failed.Fresh found := by
  unfold Cancelling.failed
  split <;> trivial

/-- A call that is at `left` has come from there, or by its commit. -/
theorem cancelling_left {q : Cancelling} {o : Op} {r : Except Exc o.Ret} {row seen : Job}
    (hok : (cancelling u j).ok q o) (hq : ∀ row seen, q ≠ .left row seen)
    (hnext : (cancelling u j).next q o r = .left row seen) : seen = row := by
  have hfailed : ∀ q : Cancelling, q.failed ≠ .left row seen := fun q => by
    unfold Cancelling.failed
    split <;> nofun
  cases o with
  | now => cases r with
    | ok t => exact absurd hnext (hq row seen)
    | error e => exact absurd hnext (hfailed q)
  | aenter => cases r with
    | ok t => exact absurd hnext (hq row seen)
    | error e => exact absurd hnext (hfailed q)
  | selectJobForUpdate i owner =>
    obtain ⟨rfl, -, -⟩ := hok
    rcases r with e | _ | row' <;> cases hnext
  | write st => cases st with
    | updateJob i st =>
      obtain ⟨-, row', rfl, -⟩ := hok
      rcases r with e | _ | _ <;> cases hnext
    | insertLog log =>
      obtain ⟨row', st, rfl⟩ := hok
      cases r <;> cases hnext
    | _ => exact hok.elim
  | commit =>
    obtain ⟨row', st, rfl⟩ := hok
    cases r <;> cases hnext
    rfl
  | selectJob i owner =>
    obtain ⟨-, -, row', seen', rfl⟩ := hok
    exact absurd rfl (hq row' seen')
  | redisInvalidate owner =>
    obtain ⟨row', seen', rfl⟩ := hok
    exact absurd rfl (hq row' seen')
  | redisPublish ev =>
    obtain ⟨row', seen', rfl⟩ := hok
    exact absurd rfl (hq row' seen')
  | aexit raised => cases r with
    | error e => exact absurd hnext (hfailed q)
    | ok done => cases q with
      | locked row' => cases raised <;> cases hnext
      | left row' seen' => exact absurd rfl (hq row' seen')
      | _ => cases hnext
  | _ => exact hok.elim

/-- The step that ends its transaction. -/
theorem Standing.release (hst : Standing (fun _ => True) p j w ν) (h : Reachable P w)
    (hrun : w.procs p ≠ none) (hs : (machine P).step mv w = some w')
    (hheld : w.shared.locks (.job j) = some p) (hover : w'.shared.locks (.job j) ≠ some p) :
    Standing (Cancelling.Fresh (w'.shared.core.db.job j)) p j w' (noteRow p j w mv w' ν) := by
  have hleft : ∀ q : Cancelling, q.Stands p j w.shared ν → ∀ row seen, q ≠ .left row seen := by
    intro q hq row seen heq
    subst heq
    exact hq.2.1 hheld
  have hst' : Standing (fun q => ∀ row seen, q = .left row seen → seen = row) p j w'
      (noteRow p j w mv w' ν) := by
    refine hst.step h (fun hp => absurd hp hrun) hs (fun _ _ hq _ hok _ row seen hnext => ?_)
      (fun q _ _ _ row seen hq => ?_) fun q _ hne => ?_
    · exact cancelling_left hok (hleft _ hq) hnext
    · unfold Cancelling.failed at hq
      split at hq <;> cases hq
    · exact absurd (((h.rely hs hne).locks _).mpr hheld) hover
  have hnote : (noteRow p j w mv w' ν).left = w'.shared.core.db.job j := by
    simp [noteRow, RowNote.step, hheld, hover]
  have htaken : (noteRow p j w mv w' ν).taken = ν.taken := (RowNote.step_released _ _ _ hover).1
  intro u prog hp
  obtain ⟨q, hobeys, hq, hseen⟩ := hst' u prog hp
  refine ⟨q, hobeys, hq, ?_⟩
  have hsome : (noteRow p j w mv w' ν).taken ≠ none := by
    obtain ⟨prog₀, hp₀⟩ : ∃ prog₀, w.procs p = some (.cancelJob u j, prog₀) := by
      rcases Machine.step_procs hs hp with hp₀ | ⟨-, hfree, -⟩
      · exact hp₀
      · exact absurd hfree hrun
    obtain ⟨q₀, -, hq₀, -⟩ := hst u prog₀ hp₀
    rw [htaken]
    exact Option.isSome_iff_ne_none.mp (hq₀.taken hheld)
  cases q with
  | start => exact absurd hq.2.2 hsome
  | absent => exact absurd hq.2.2 hsome
  | locked row => exact absurd hq.2.1 hover
  | wrote row st => exact absurd hq.2.1 hover
  | kept row => exact hnote.symm.trans hq.2.2.2.1
  | left row seen => exact ⟨hnote.symm.trans hq.2.2.1, hseen row seen rfl⟩
  | _ => trivial

/-- What it reads while the row stays as it is. -/
theorem Cancelling.Fresh.own {s s' : Shared} {o : Op} {ch : Choice} {r : Except Exc o.Ret}
    {q : Cancelling}
    {found : Option Job} (hf : q.Fresh found) (hq : q.Stands p j s ν)
    (hok : (cancelling u j).ok q o) (hrow : ∀ row, found = some row → s.core.db.job j = some row)
    (he : s.exec P.reads p o ch = some (r, s')) : ((cancelling u j).next q o r).Fresh found := by
  cases o with
  | now => cases r with
    | ok t => exact hf
    | error e => exact .failed q
  | aenter => cases r with
    | ok t => exact hf
    | error e => exact .failed q
  | selectJobForUpdate i owner =>
    obtain ⟨rfl, -, -⟩ := hok
    exact hf.elim
  | write st => cases st with
    | updateJob i st =>
      obtain ⟨-, row, rfl, -⟩ := hok
      exact hf.elim
    | insertLog log =>
      obtain ⟨row, st, rfl⟩ := hok
      exact hf.elim
    | _ => exact hok.elim
  | commit =>
    obtain ⟨row, st, rfl⟩ := hok
    exact hf.elim
  | selectJob i owner =>
    obtain ⟨rfl, rfl, row, seen, rfl⟩ := hok
    obtain ⟨rfl, -⟩ := hf
    cases ch with
    | answer =>
      cases he
      have hview : s.view p = s.core.db := by rw [Shared.view, hq.1, Db.applyAll_nil]
      rw [hview, hrow row rfl]
      exact ⟨rfl, rfl⟩
    | fails text =>
      cases he
      trivial
    | _ => cases he
  | redisInvalidate owner => exact hf
  | redisPublish ev => exact hf
  | aexit raised => cases r with
    | error e => exact .failed q
    | ok done => cases q with
      | locked row => exact hf.elim
      | _ => exact hf
  | _ => exact hok.elim

theorem Standing.fresh_step {found : Option Job} (hst : Standing (Cancelling.Fresh found) p j w ν)
    (h : Reachable P w) (hrun : w.procs p ≠ none)
    (hrow : ∀ row, found = some row → w.shared.core.db.job j = some row)
    (hs : (machine P).step mv w = some w') :
    Standing (Cancelling.Fresh found) p j w' (noteRow p j w mv w' ν) :=
  hst.step h (fun hp => absurd hp hrun) hs (fun _ _ hq hf hok he => hf.own hq hok hrow he)
    (fun q _ _ _ => .failed q) fun _ hf _ => hf

/-- A second call finds nothing to do. -/
def Cancelling.Again (row : Job) (q : Cancelling) : Prop :=
  q = .start ∨ q = .locked row ∨ q = .kept row ∨ q = .broken

theorem JobStmt.cancels.guard_of_cancelling {row : Job} {st : JobStmt} (h : st.cancels row)
    (hrow : row.isCancelling) : st.update.guard row = false := by
  cases st with
  | cancelPendingOrQueued now =>
    have hd : row.status.isDispatchable = true := h
    rcases hrow with hc | ⟨hr, -⟩
    · rw [hc] at hd
      cases hd
    · rw [hr] at hd
      cases hd
  | requestRunningCancellation now =>
    have hr : row.status = .running := h
    rcases hrow with hc | ⟨-, hc⟩
    · rw [hr] at hc
      cases hc
    · obtain ⟨t, ht⟩ := Option.isSome_iff_exists.mp hc
      simp [JobStmt.update, CloudJob.requestRunningCancellation, ht]
  | _ => exact h.elim

theorem Cancelling.Again.own {s s' : Shared} {o : Op} {ch : Choice} {r : Except Exc o.Ret}
    {q : Cancelling}
    {row : Job} (ha : q.Again row) (hq : q.Stands p j s ν) (hok : (cancelling u j).ok q o)
    (hrow : s.core.db.job j = some row) (hcancelling : row.isCancelling)
    (hu : u.role = .admin ∨ u.id = row.ownerId)
    (he : s.exec P.reads p o ch = some (r, s')) : ((cancelling u j).next q o r).Again row := by
  have hfailed : q.failed.Again row := by
    rcases ha with rfl | rfl | rfl | rfl <;> exact .inr (.inr (.inr rfl))
  cases o with
  | now => cases r with
    | ok t => exact ha
    | error e => exact hfailed
  | aenter => cases r with
    | ok t => exact ha
    | error e => exact hfailed
  | selectJobForUpdate i owner =>
    obtain ⟨rfl, rfl, rfl⟩ := hok
    rcases exec_selectJobForUpdate_cases hq.1.staged he with ⟨text, rfl, -⟩ | ⟨-, -, hno⟩ |
      ⟨row', rfl, hrow', -⟩
    · exact hfailed
    · have hall := hno row hrow
      rw [JobService.lookupScope_all.mpr hu] at hall
      cases hall
    · rw [hrow] at hrow'
      cases hrow'
      exact .inr (.inl rfl)
  | write st => cases st with
    | updateJob i st =>
      obtain ⟨rfl, row', rfl, hst⟩ := hok
      rcases ha with ha | ha | ha | ha <;> cases ha
      have hmay := (hq.update (u := u) hst he).1
      rcases r with e | _ | _
      · exact hfailed
      · exact .inr (.inl rfl)
      · have hguard : true = st.update.guard row := hmay row rfl
        rw [hst.guard_of_cancelling hcancelling] at hguard
        cases hguard
    | insertLog log =>
      obtain ⟨row', st, rfl⟩ := hok
      rcases ha with ha | ha | ha | ha <;> cases ha
    | _ => exact hok.elim
  | commit =>
    obtain ⟨row', st, rfl⟩ := hok
    rcases ha with ha | ha | ha | ha <;> cases ha
  | selectJob i owner =>
    obtain ⟨-, -, row', seen, rfl⟩ := hok
    rcases ha with ha | ha | ha | ha <;> cases ha
  | redisInvalidate owner => exact ha
  | redisPublish ev => exact ha
  | aexit raised => cases r with
    | error e => exact hfailed
    | ok done =>
      rcases ha with rfl | rfl | rfl | rfl
      · exact hok.elim
      · cases raised with
        | true => exact absurd hok hcancelling.cancellable
        | false => exact .inr (.inr (.inl rfl))
      · exact hok.elim
      · exact .inr (.inr (.inr rfl))
  | _ => exact hok.elim

theorem Standing.again_step {row : Job} (hst : Standing (Cancelling.Again row) p j w ν)
    (h : Reachable P w)
    (hrun : w.procs p ≠ none) (hu : ∀ u, w.shared.calls p = some (.cancelJob u j) →
      u.role = .admin ∨ u.id = row.ownerId)
    (hrow : w.shared.core.db.job j = some row) (hcancelling : row.isCancelling)
    (hs : (machine P).step mv w = some w') :
    Standing (Cancelling.Again row) p j w' (noteRow p j w mv w' ν) := by
  refine hst.step h (fun hp => absurd hp hrun) hs
    (fun hcall _ hq ha hok he => ha.own hq hok hrow hcancelling (hu _ hcall) he)
    (fun q _ ha _ => ?_) fun _ ha _ => ha
  rcases ha with rfl | rfl | rfl | rfl <;> exact .inr (.inr (.inr rfl))

/-- In `w₃`, `p₂` has just been started on a second cancellation of `j`, for a user who may. `p₁`
has returned `dto` from the first; its transaction was over in `w₁`, and from there on nobody has
committed a change of the row. -/
structure Repeats (p₁ p₂ : Pid) (u₁ u₂ : CurrentUserDTO) (j : Uuid) (dto : JobPublicDTO)
    (w₀ w₁ w₂ w₃ : World (machine P)) : Prop where
  reachable : Reachable P w₀
  running : ∃ prog, w₀.procs p₁ = some (.cancelJob u₁ j, prog)
  held : w₀.shared.locks (.job j) = some p₁
  ends : ∃ mv, (machine P).step mv w₀ = some w₁
  released : w₁.shared.locks (.job j) ≠ some p₁
  unchanged : (machine P).ReachBy (LeavesRow j fun _ => True) w₁ w₂
  returned : w₂.procs p₁ = some (.cancelJob u₁ j, .ret (.job dto))
  started : (machine P).step (.start p₂ (.cancelJob u₂ j)) w₂ = some w₃
  authorized : u₂.role = .admin ∨ u₂.id = dto.ownerId

section Repeats

variable {p₁ p₂ : Pid} {u₁ u₂ : CurrentUserDTO} {dto : JobPublicDTO}
  {w₀ w₁ w₂ w₃ w₄ : World (machine P)}

/-- What the first call has returned is the row as it is. -/
theorem Repeats.returns (h : Repeats p₁ p₂ u₁ u₂ j dto w₀ w₁ w₂ w₃) : Reachable P w₂ ∧
    ∃ row, w₂.shared.core.db.job j = some row ∧ row.isCancelling ∧
      dto = toJobPublicDto (toStoredJobDto row) := by
  obtain ⟨prog, hp₀⟩ := h.running
  obtain ⟨mv, hs⟩ := h.ends
  obtain ⟨ν₀, hν₀⟩ := h.reachable.observed (noteRow p₁ j) .init
  have hrun : w₀.procs p₁ ≠ none := by rw [hp₀]; nofun
  have hfresh := (standing hν₀).2.2.release h.reachable hrun hs h.held h.released
  obtain ⟨ν₂, hν₂⟩ := h.unchanged.observed (noteRow p₁ j) (noteRow p₁ j w₀ mv w₁ ν₀)
  have hcalls : w₁.procs p₁ ≠ none := fun hnone => hrun (Machine.step_procs_none hs hnone).1
  have hall : Reachable P w₂ ∧ w₂.procs p₁ ≠ none ∧
      (∀ row, w₁.shared.core.db.job j = some row → w₂.shared.core.db.job j = some row) ∧
      Standing (Cancelling.Fresh (w₁.shared.core.db.job j)) p₁ j w₂ ν₂ := by
    refine hν₂.invariant (I := fun w ν => Reachable P w ∧ w.procs p₁ ≠ none ∧
      (∀ row, w₁.shared.core.db.job j = some row → w.shared.core.db.job j = some row) ∧
      Standing (Cancelling.Fresh (w₁.shared.core.db.job j)) p₁ j w ν)
      ⟨h.reachable.step hs, hcalls, fun _ hrow => hrow, hfresh⟩ fun w w' ν m hi hok hs' => ?_
    obtain ⟨hr, hlive, hrow, hst⟩ := hi
    exact ⟨hr.step hs', fun hnone => hlive (Machine.step_procs_none hs' hnone).1,
      fun row hfound => hok.row hr hs' (fun _ _ _ _ _ _ => trivial) (hrow row hfound),
      hst.fresh_step hr hlive hrow hs'⟩
  obtain ⟨hr, -, hrow, hst⟩ := hall
  obtain ⟨q, ⟨dto', hout, row, seen, hq, hcancelling, hdto⟩, -, hf⟩ := hst u₁ _ h.returned
  cases hout
  refine ⟨hr, row, ?_, hcancelling, ?_⟩
  · rcases hq with ⟨rfl, -⟩ | rfl
    · exact hrow row hf
    · exact hrow row hf.1
  · rcases hq with ⟨-, rfl⟩ | rfl
    · exact hdto
    · rw [hdto, hf.2]

/-- **A second call changes nothing**, says nothing, and returns what the first one returned. -/
theorem Repeats.again (h : Repeats p₁ p₂ u₁ u₂ j dto w₀ w₁ w₂ w₃) {ν : RowNote}
    (hrun : (machine P).ObservedBy (LeavesRow j (· ≠ p₂)) (noteRow p₂ j) w₃ .init w₄ ν)
    {prog : Code Outcome} (hp : w₄.procs p₂ = some (.cancelJob u₂ j, prog)) :
    (∀ en ∈ w₄.shared.core.history, en.pid ≠ p₂) ∧ (∀ out, prog = .ret out → out = .job dto) ∧
    ∀ e, prog = .raise e → ν.failed = true := by
  obtain ⟨hr, row, hrow, hcancelling, rfl⟩ := h.returns
  have hstart : ∃ s, w₂.procs p₂ = none ∧ w₂.shared.start P p₂ (.cancelJob u₂ j) = some s ∧
      w₃ = ⟨s, Function.update w₂.procs p₂ (some
        (.cancelJob u₂ j, Call.prog P (.cancelJob u₂ j)))⟩ := by
    rcases Machine.step_cases h.started with ⟨p', c, s, heq, hfree, hst, rfl⟩ |
      ⟨_, _, _, _, _, _, _, heq, -⟩ |
      ⟨_, _, _, heq, -⟩ | ⟨_, _, heq, -⟩
    · cases heq
      exact ⟨s, hfree, hst, rfl⟩
    · cases heq
    · cases heq
    · cases heq
  obtain ⟨s, hfree, hs, rfl⟩ := hstart
  obtain ⟨hclean, hlock⟩ := hr.start_clean (j := j) hfree hs
  have hfirst : Standing (Cancelling.Again row) p₂ j
      ⟨s, Function.update w₂.procs p₂ (some (.cancelJob u₂ j, Call.prog P (.cancelJob u₂ j)))⟩
      .init := by
    intro u prog' hp'
    simp only [Function.update_self, Option.some.injEq, Prod.mk.injEq] at hp'
    obtain ⟨hcall, rfl⟩ := hp'
    cases hcall
    exact ⟨.start, cancelling_prog u₂ j, ⟨hclean, hlock, rfl⟩, .inl rfl⟩
  have hr₃ := hr.step h.started
  have hp₃ : w₂.procs p₂ = none → (Function.update w₂.procs p₂
      (some (Call.cancelJob u₂ j, Call.prog P (.cancelJob u₂ j)))) p₂ ≠ none := fun _ => by
    rw [Function.update_self]
    nofun
  have hall : Reachable P w₄ ∧ w₄.shared.calls p₂ = some (.cancelJob u₂ j) ∧ w₄.procs p₂ ≠ none ∧
      w₄.shared.core.db.job j = some row ∧ Standing (Cancelling.Again row) p₂ j w₄ ν := by
    refine hrun.invariant (I := fun w ν => Reachable P w ∧
      w.shared.calls p₂ = some (.cancelJob u₂ j) ∧
      w.procs p₂ ≠ none ∧ w.shared.core.db.job j = some row ∧
      Standing (Cancelling.Again row) p₂ j w ν)
      ⟨hr₃, hr₃.calls (Function.update_self ..), hp₃ hfree, (start_core hs).symm ▸ hrow, hfirst⟩
      fun w w' ν m hi hok hs' => ?_
    obtain ⟨hrw, hcall, hlive, hj, hst⟩ := hi
    refine ⟨hrw.step hs', hrw.calls_stay hs' hcall, fun hnone =>
      hlive (Machine.step_procs_none hs' hnone).1,
      hok.row hrw hs' (fun q ch c k _ hq heq => ?_) hj,
      hst.again_step hrw hlive (fun u hu => ?_) hj hcancelling hs'⟩
    · -- the second call does not commit
      subst heq
      have hop : c = .cancelJob u₂ j := by
        have hcall' := hrw.calls hq
        rw [hcall] at hcall'
        cases hcall'
        rfl
      subst hop
      obtain ⟨q', hobeys, -, ha⟩ := hst u₂ _ hq
      obtain ⟨row', st, rfl⟩ := hobeys.1
      rcases ha with ha | ha | ha | ha <;> cases ha
    · rw [hcall] at hu
      cases hu
      exact h.authorized
  obtain ⟨-, -, -, -, hst⟩ := hall
  obtain ⟨q, hobeys, hq, ha⟩ := hst u₂ prog hp
  have hclean₄ : Clean p₂ w₄.shared := by
    rcases ha with rfl | rfl | rfl | rfl <;> exact hq.1
  refine ⟨hclean₄.history, fun out heq => ?_, fun e heq => ?_⟩
  · subst heq
    obtain ⟨dto, rfl, row', seen, hq', -, rfl⟩ := hobeys
    rcases hq' with ⟨rfl, rfl⟩ | rfl
    · rcases ha with ha | ha | ha | ha <;> cases ha
      rfl
    · rcases ha with ha | ha | ha | ha <;> cases ha
  · subst heq
    rcases hobeys with ⟨-, row', rfl, -⟩ | ⟨-, hstuck⟩
    · rcases ha with ha | ha | ha | ha <;> cases ha
    · rcases ha with rfl | rfl | rfl | rfl
      · cases hstuck
      · cases hstuck
      · cases hstuck
      · exact hq.2.1

end Repeats

end Run

/-! ## The contract -/

/-- **What a caller of `cancel_job` can count on**, whatever the others do. A call that has returned
left the row, at the end of its transaction, cancelled or running with a request to stop. It has
refused where the row it locked was completed or failed, and only there, unless one of its own calls
failed; and then it has written nothing and told nobody. A second call, with no other committed
change of the row in between, writes nothing, tells nobody and returns what the first one returned.
And a request once made stays as it was made. -/
theorem cancellation_contract :
    (∀ p j (w : World (machine P)) ν u prog,
      (machine P).ObservedBy (fun _ _ => True) (noteRow p j) (World.init P) .init w ν →
      w.procs p = some (.cancelJob u j, prog) →
      (∀ out, prog = .ret out → ∃ row, ν.left = some row ∧ row.isCancelling) ∧
      (prog = .raise .jobNotCancellable → ∃ row, ν.taken = some row ∧ row.notCancellable) ∧
      ∀ row, ν.taken = some row → row.notCancellable →
        (∀ en ∈ w.shared.core.history, en.pid ≠ p) ∧ (∀ out, prog ≠ .ret out) ∧
        ∀ e, prog = .raise e → e = .jobNotCancellable ∨ ν.failed = true) ∧
    (∀ p₁ p₂ u₁ u₂ j dto (w₀ w₁ w₂ w₃ w₄ : World (machine P)) ν prog,
      Repeats p₁ p₂ u₁ u₂ j dto w₀ w₁ w₂ w₃ →
      (machine P).ObservedBy (LeavesRow j (· ≠ p₂)) (noteRow p₂ j) w₃ .init w₄ ν →
      w₄.procs p₂ = some (.cancelJob u₂ j, prog) →
      (∀ en ∈ w₄.shared.core.history, en.pid ≠ p₂) ∧ (∀ out, prog = .ret out → out = .job dto) ∧
      ∀ e, prog = .raise e → ν.failed = true) ∧
    ∀ (w w' : World (machine P)) j row t, Reachable P w → (machine P).Reach w w' →
      w.shared.core.db.job j = some row → row.cancelRequestedAt = some t →
      ∃ row', w'.shared.core.db.job j = some row' ∧ row'.cancelRequestedAt = some t := by
  refine ⟨fun p j w ν u prog h hp => ?_, fun _ _ _ _ _ _ _ _ _ _ _ _ _ h hrun hp => h.again hrun hp,
    fun w w' j row t hr hreach hj hc => ?_⟩
  · obtain ⟨hret, hraise, hno⟩ := (standing h).2.2.ended hp
    exact ⟨hret, hraise, fun row ht hn => ⟨(hno row ht hn).1.history, (hno row ht hn).2⟩⟩
  · refine (hreach.invariant (I := fun w => Reachable P w ∧
      ∃ row', w.shared.core.db.job j = some row' ∧
      row'.cancelRequestedAt = some t) ⟨hr, row, hj, hc⟩ fun w₁ w₂ mv hi _ hs => ?_).2
    obtain ⟨hr₁, row₁, hj₁, hc₁⟩ := hi
    exact ⟨hr₁.step hs, hr₁.cancelRequestedAt_step hs hj₁ hc₁⟩

/-! The job of the run of `System.lean` is asked to stop while it runs, twice; and once when it is
completed. -/

/-- What the call of `p` by `u` for `j` has come to: the job it returned, or its refusal. -/
def cancelAnswer (p : Pid) (u : CurrentUserDTO) (j : Uuid) (w : World (machine P)) :
    Option (Option JobPublicDTO) :=
  match w.procs p with
  | some (.cancelJob u' j', .ret (.job dto)) => if u' = u ∧ j' = j then some (some dto) else none
  | some (.cancelJob u' j', .raise .jobNotCancellable) => if u' = u ∧ j' = j then
      some none else none
  | _ => none

theorem cancelAnswer_ret {p : Pid} {dto : JobPublicDTO} {w : World (machine P)}
    (h : cancelAnswer p u j w = some (some dto)) :
    w.procs p = some (.cancelJob u j, .ret (.job dto)) := by
  unfold cancelAnswer at h
  split at h
  · rename_i hp
    split at h
    · rename_i heq
      obtain ⟨rfl, rfl⟩ := heq
      cases h
      exact hp
    · cases h
  · split at h <;> cases h
  · cases h

theorem cancelAnswer_raise {p : Pid} {w : World (machine P)}
    (h : cancelAnswer p u j w = some none) :
    w.procs p = some (.cancelJob u j, .raise .jobNotCancellable) := by
  unfold cancelAnswer at h
  split at h
  · split at h <;> cases h
  · rename_i hp
    split at h
    · rename_i heq
      obtain ⟨rfl, rfl⟩ := heq
      exact hp
    · cases h
  · cases h

/-- Process `p` is a cancellation by `u` of `j`. -/
def cancels (p : Pid) (u : CurrentUserDTO) (j : Uuid) (w : World (machine P)) : Bool :=
  match w.procs p with
  | some (.cancelJob u' j', _) => decide (u' = u ∧ j' = j)
  | _ => false

theorem procs_of_cancels {p : Pid} {w : World (machine P)} (h : cancels p u j w = true) :
    ∃ prog, w.procs p = some (.cancelJob u j, prog) := by
  unfold cancels at h
  split at h
  · rename_i prog hp
    obtain ⟨rfl, rfl⟩ := of_decide_eq_true h
    exact ⟨prog, hp⟩
  · cases h

/-- No one in question is about to commit a change of the row. -/
def leavesRow (j : Uuid) (who : Pid → Bool) (w : World (machine P)) : Move (machine P) → Bool
  | .run q _ => match w.procs q with
    | some (_, .call .commit _) => !who q || (w.shared.staged q).all fun st => match st with
      | .updateJob i _ => i != j
      | _ => true
    | _ => true
  | _ => true

theorem leavesRow_of_test {who : Pid → Bool} {w : World (machine P)} {mv : Move (machine P)}
    (h : leavesRow j who w mv = true) : LeavesRow j (fun q => who q = true) w mv := by
  intro q ch c k hmv hq hp st hmem
  subst hmv
  simp only [leavesRow, hp, hq, Bool.not_true, Bool.false_or, List.all_eq_true] at h
  have hne := h _ hmem
  simp at hne

/-- The first call, up to its commit. -/
def cancelMoves : List (Move (machine .default)) :=
  claimedMoves ++ [.start 3 (.cancelJob ⟨1, .user⟩ 10), .run 3 (.time 0)] ++ answers 3 3 ++
    [.run 3 (.time 0)] ++ answers 3 1

/-- The second call. -/
def cancelAgainMoves : List (Move (machine .default)) := [.run 4 (.time 0)] ++ answers 4 4

theorem cancellation_contract_repeated :
    (∃ w₀ w₁ w₂ w₃ w₄ : World (machine .default), ∃ dto,
      Repeats 3 4 ⟨1, .user⟩ ⟨1, .user⟩ 10 dto w₀ w₁ w₂ w₃ ∧ (machine .default).Reach w₃ w₄ ∧
      w₄.procs 4 = some (.cancelJob ⟨1, .user⟩ 10, .ret (.job dto)) ∧
      (∀ en ∈ w₄.shared.core.history, en.pid ≠ 4) ∧
      ∃ row, w₄.shared.core.db.job 10 = some row ∧ row.cancelRequestedAt = some 0) ∧
    (∃ (w : World (machine .default)) (ν : RowNote),
      (machine .default).ObservedBy (fun _ _ => True) (noteRow 3 10)
      (World.init .default) .init w ν ∧ ∃ row, ν.left = some row ∧ row.isCancelling) ∧
    ∃ w : World (machine .default), Reachable .default w ∧
      w.procs 3 = some (.cancelJob ⟨1, .user⟩ 10, .raise .jobNotCancellable) ∧
      ∀ en ∈ w.shared.core.history, en.pid ≠ 3 := by
  obtain ⟨hended, hagain, hstays⟩ := cancellation_contract (P := .default)
  have hrun : (((machine .default).run cancelMoves (World.init .default)).bind fun w₀ =>
      ((machine .default).step (.run 3 .answer) w₀).bind fun w₁ =>
      ((machine .default).runIf (leavesRow 10 fun _ => true) (answers 3 7) w₁).bind fun w₂ =>
      ((machine .default).step (.start 4 (.cancelJob ⟨1, .user⟩ 10)) w₂).bind fun w₃ =>
      ((machine .default).observeIf (leavesRow 10 fun q => q != 4) (noteRow 4 10)
        cancelAgainMoves w₃
        .init).map fun x =>
          decide (w₀.shared.locks (.job 10) = some 3) &&
            decide (w₁.shared.locks (.job 10) = none) &&
          cancels 3 ⟨1, .user⟩ 10 w₀ &&
          ((cancelAnswer 3 ⟨1, .user⟩ 10 w₂).join.any fun dto => decide (dto.ownerId = 1)) &&
          ((cancelAnswer 4 ⟨1, .user⟩ 10 x.1).join.isSome) &&
          ((w₂.shared.core.db.job 10).any fun row => decide (row.cancelRequestedAt = some 0))) =
              some true := by
    decide +kernel
  obtain ⟨w₀, hw₀, hrun⟩ := Option.bind_eq_some_iff.mp hrun
  obtain ⟨w₁, hw₁, hrun⟩ := Option.bind_eq_some_iff.mp hrun
  obtain ⟨w₂, hw₂, hrun⟩ := Option.bind_eq_some_iff.mp hrun
  obtain ⟨w₃, hw₃, hrun⟩ := Option.bind_eq_some_iff.mp hrun
  obtain ⟨⟨w₄, ν₄⟩, hw₄, hrun⟩ := Option.map_eq_some_iff.mp hrun
  simp only [Bool.and_eq_true, decide_eq_true_eq] at hrun
  obtain ⟨⟨⟨⟨⟨hheld, hfree⟩, hfirst⟩, hanswer⟩, hsecond⟩, hrequest⟩ := hrun
  obtain ⟨dto, hdto, howner⟩ := (Option.any_eq_true _ _).mp hanswer
  obtain ⟨dto', hdto'⟩ := Option.isSome_iff_exists.mp hsecond
  obtain ⟨row, hrow, hrequested⟩ := (Option.any_eq_true _ _).mp hrequest
  rw [Option.join_eq_some_iff] at hdto hdto'
  have hr₀ : Reachable .default w₀ := .of_run hw₀
  have hquiet : (machine .default).ReachBy (LeavesRow 10 fun _ => True) w₁ w₂ :=
    (Machine.ReachBy.of_runIf (fun _ _ ht => leavesRow_of_test ht) hw₂).mono
      fun w mv hl q ch c k hmv _ hp => hl q ch c k hmv rfl hp
  have hobserved : (machine .default).ObservedBy (LeavesRow 10 (· ≠ 4)) (noteRow 4 10) w₃
      .init w₄ ν₄ :=
    (Machine.ObservedBy.of_observeIf (fun _ _ ht => leavesRow_of_test ht) hw₄).mono
      fun w mv hl q ch c k hmv hq hp => hl q ch c k hmv (bne_iff_ne.mpr hq) hp
  have hrepeats : Repeats 3 4 ⟨1, .user⟩ ⟨1, .user⟩ 10 dto w₀ w₁ w₂ w₃ := by
    refine ⟨hr₀, procs_of_cancels hfirst, hheld, ⟨_, hw₁⟩, ?_, hquiet,
      cancelAnswer_ret hdto, hw₃, .inr ?_⟩
    · rw [hfree]
      nofun
    · exact (of_decide_eq_true howner).symm
  have hr₂ : Reachable .default w₂ := (hr₀.step hw₁).trans hquiet.reach
  have hreach : (machine .default).Reach w₃ w₄ := hobserved.reachBy.reach
  have hreach₂ : (machine .default).Reach w₂ w₄ :=
    (Machine.ReachBy.tail _ .refl trivial hw₃).trans hreach
  have hp₄ := cancelAnswer_ret hdto'
  obtain ⟨hnothing, hsame, -⟩ := hagain 3 4 _ _ _ _ _ _ _ _ _ _ _ hrepeats hobserved hp₄
  cases hsame _ rfl
  obtain ⟨ν, hν⟩ := hr₂.observed (noteRow 3 10) .init
  have hleft := (hended 3 10 w₂ ν _ _ hν (cancelAnswer_ret hdto)).1 _ rfl
  refine ⟨⟨w₀, w₁, w₂, w₃, w₄, dto, hrepeats, hreach, hp₄, hnothing,
    hstays w₂ w₄ 10 row 0 hr₂ hreach₂ hrow (of_decide_eq_true hrequested)⟩, ⟨w₂, ν, hν, hleft⟩, ?_⟩
  have hrun : (((machine .default).run (claimedMoves ++ completeMoves 2 0 ++
      [.start 3 (.cancelJob ⟨1, .user⟩ 10), .run 3 (.time 0)] ++ answers 3 3)
      (World.init .default)).bind
        (cancelAnswer 3 ⟨1, .user⟩ 10)).map Option.isNone = some true := by
    decide +kernel
  obtain ⟨answer, hrun, hnone⟩ := Option.map_eq_some_iff.mp hrun
  rw [Option.isNone_iff_eq_none] at hnone
  subst hnone
  obtain ⟨w, hw, hanswer⟩ := Option.bind_eq_some_iff.mp hrun
  have hr : Reachable .default w := .of_run hw
  have hp := cancelAnswer_raise hanswer
  obtain ⟨ν, hν⟩ := hr.observed (noteRow 3 10) .init
  obtain ⟨-, hraise, hno⟩ := hended 3 10 w ν _ _ hν hp
  obtain ⟨row, htaken, hnot⟩ := hraise rfl
  exact ⟨w, hr, hp, (hno row htaken hnot).1⟩

end CloudJob
