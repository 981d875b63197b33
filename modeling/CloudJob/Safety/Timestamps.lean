import CloudJob.Contract.Soundness
import CloudJob.Contract.Staged

/-!
# `Safety/Timestamps.lean` — whether the times of a row go forward

With one clock for everybody, a statement writes a time that was read before it is committed. How
long before is another matter: `cancel_job`, the claim and recovery read the clock and then wait for
the row, and the finalizers read it and then update a row they do not hold. A commit of somebody
else that comes in between has put a later time there.

Where no update finds its row changed after the time it writes, the times of every row are in order.
-/

set_option autoImplicit false

namespace CloudJob

open Lib

variable {P : Params} {w w' : World (machine P)} {j k : Uuid}

/-! ## Rows in order -/

/-- A job is started after it was created, and finished after it was started. -/
def Job.Ordered (row : Job) : Prop :=
  ∀ t ∈ row.startedAt, row.createdAt ≤ t ∧ ∀ t' ∈ row.finishedAt, t ≤ t'

/-- No time of the row that an update leaves there is later than `t`. -/
structure Job.TimesUpTo (row : Job) (t : Datetime) : Prop where
  createdAt : row.createdAt ≤ t
  updatedAt : row.updatedAt ≤ t
  startedAt : ∀ t' ∈ row.startedAt, t' ≤ t

/-- An update that is made at a time no earlier keeps the order. -/
theorem Job.Ordered.set {row : Job} {st : JobStmt} (h : row.Ordered) (htimes : row.TimesUpTo st.now) :
    (st.update.set row).Ordered := by
  -- what ends an execution finishes it now, or not at all
  have hreleased : ∀ {status : JobStatus} {finishedAt : Option Datetime} {lastError : Option String},
      (∀ t ∈ finishedAt, t = st.now) →
      Job.Ordered { row.release status st.now with finishedAt := finishedAt, lastError := lastError } := by
    intro status finishedAt lastError hfinished t ht
    refine ⟨(h t ht).1, fun t' ht' => ?_⟩
    rw [hfinished t' ht']
    exact htimes.startedAt t ht
  cases st with
  | markQueued now => exact h
  | markRunning workerId token now lease =>
    intro t ht
    refine ⟨?_, fun t' ht' => by cases ht'⟩
    have ht : row.startedAt.getD now = t := by simpa [JobStmt.update, markRunning] using ht
    cases hs : row.startedAt with
    | none =>
      rw [hs] at ht
      exact ht ▸ htimes.createdAt
    | some t₀ =>
      rw [hs] at ht
      cases ht
      exact (h t₀ hs).1
  | markCompleted token now => exact hreleased fun t ht => by cases ht; rfl
  | markFailed token now error => exact hreleased fun t ht => by cases ht; rfl
  | requeueRunning token now error => exact hreleased fun t ht => by cases ht
  | markCancelled token now => exact hreleased fun t ht => by cases ht; rfl
  | markFailedWithoutExecution status now error => exact hreleased fun t ht => by cases ht; rfl
  | cancelPendingOrQueued now => exact hreleased fun t ht => by cases ht; rfl
  | requestRunningCancellation now => exact h

theorem updatedAt_set (st : JobStmt) (row : Job) : (st.update.set row).updatedAt = st.now := by
  cases st <;> rfl

/-- After the update, no time is later than one that is later than all before and than its own. -/
theorem Job.TimesUpTo.set {row : Job} {st : JobStmt} {t : Datetime} (h : row.TimesUpTo st.now)
    (hnow : st.now ≤ t) : (st.update.set row).TimesUpTo t where
  createdAt := by
    rw [show (st.update.set row).createdAt = row.createdAt by cases st <;> rfl]
    exact h.createdAt.trans hnow
  updatedAt := updatedAt_set st row ▸ hnow
  startedAt t' ht' := by
    cases st with
    | markRunning workerId token now lease =>
      have ht : row.startedAt.getD now = t' := by simpa [JobStmt.update, markRunning] using ht'
      cases hs : row.startedAt with
      | none =>
        rw [hs] at ht
        exact ht ▸ hnow
      | some t₀ =>
        rw [hs] at ht
        cases ht
        exact (h.startedAt t₀ hs).trans hnow
    | _ => exact (h.startedAt t' ht').trans hnow

/-! ## Who changes a row -/

/-- The entry is of a committed statement about the row of `j`. -/
def Entry.Changes (j : Uuid) (en : Entry) : Prop := ∃ st, en.event = .stmt st ∧ .job j ∈ st.rows

/-- An update that is about to match: what it writes is no earlier than any commit that has changed
the row. -/
def Undisturbed (w : World (machine P)) (mv : Move (machine P)) : Prop :=
  ∀ p ch op j st k row, mv = .run p ch → w.procs p = some (op, .call (.write (.updateJob j st)) k) →
    w.shared.core.db.job j = some row → st.update.guard row = true →
    ∀ en ∈ w.shared.core.history, en.Changes j → en.clock ≤ st.now

theorem job_applyAll_new {l : List Stmt} : ∀ {db : Db} {row : Job}, db.job j = none →
    (db.applyAll l).job j = some row → ∃ job, .insertJob job ∈ l ∧ job.id = j := by
  induction l with
  | nil =>
    intro db row hnone hrow
    rw [Db.applyAll_nil, hnone] at hrow
    cases hrow
  | cons st l ih =>
    intro db row hnone hrow
    by_cases hnew : ∃ job, st = .insertJob job ∧ job.id = j
    · obtain ⟨job, rfl, hid⟩ := hnew
      exact ⟨job, List.mem_cons_self, hid⟩
    · have hstill : (st.apply db).job j = none := by
        cases st with
        | insertJob job =>
          rw [job_insertJob_of_ne fun heq => hnew ⟨job, rfl, heq.symm⟩]
          exact hnone
        | updateJob k jst =>
          rw [job_updateJob]
          split
          · rename_i heq
            rw [← heq, hnone]
            rfl
          · exact hnone
        | insertLog log => exact hnone
        | insertEvent ev => exact hnone
        | updateEvent e est => exact hnone
      rw [Db.applyAll_cons] at hrow
      obtain ⟨job, hjob, hid⟩ := ih hstill hrow
      exact ⟨job, List.mem_cons_of_mem _ hjob, hid⟩

theorem Closing.insertJob_not_mem {c : Core} {l : List Stmt} (h : Closing P c k l) (job : Job) :
    .insertJob job ∉ l := by
  intro hm
  have hredispatch : ∀ {t : Datetime} {ev : List Stmt}, Redispatch c k t ev →
      .insertJob job ∉ ev := by
    intro t ev hr hm
    cases hr with
    | existing => cases hm
    | new => simp at hm
  cases h with
  | retried _ _ _ _ hr => exact hredispatch hr (by simpa using hm)
  | staleRequeued _ _ _ _ hr => exact hredispatch hr (by simpa using hm)
  | _ => simp at hm

/-- A row that is new was inserted, with times that were read before. -/
theorem Txn.row_new {c : Core} {l : List Stmt} (h : Txn P c l)
    (hnone : c.db.job j = none) {row : Job}
    (hrow : (c.db.applyAll l).job j = some row) :
    .insertJob row ∈ l ∧ P.ReadBy c.clock row.createdAt ∧
      P.ReadBy c.clock row.updatedAt ∧ row.startedAt = none := by
  obtain ⟨job, hjob, hid⟩ := job_applyAll_new hnone hrow
  cases h with
  | batch items _ _ hall =>
    obtain ⟨x, hx, hm⟩ := List.mem_flatMap.mp hjob
    exact absurd hm ((hall x hx).insertJob_not_mem job)
  | action h =>
    cases h with
    | @create id e owner type payload key retries createdAt updatedAt t t' availableAt _ _
        hfresh _ hcreated
        hupdated =>
      have hinsert : (Stmt.apply c.db (.insertJob (newPendingJob id owner type payload key
          (P.buildRequestHash type payload) retries createdAt updatedAt))).job j = some row := hrow
      rw [job_insertJob hfresh] at hinsert
      split at hinsert
      · cases hinsert
        exact ⟨List.mem_cons_self, hcreated, hupdated, rfl⟩
      · rw [hnone] at hinsert
        cases hinsert
    | close h => exact absurd hjob (h.insertJob_not_mem job)
    | _ => simp at hjob

/-! ## Along a run -/

/-- No time of a row is later than some commit that changed it, nor any commit that did than an
update that is staged for it. -/
structure OnTime (s : Shared) : Prop where
  ordered : ∀ j row, s.core.db.job j = some row → row.Ordered
  changed : ∀ j row, s.core.db.job j = some row →
    ∃ en ∈ s.core.history, en.Changes j ∧ row.TimesUpTo en.clock
  staged : ∀ q j st, .updateJob j st ∈ s.staged q →
    ∀ en ∈ s.core.history, en.Changes j → en.clock ≤ st.now

theorem Params.ReadBy.le (hclock : ∀ t r, P.reads t r = true → r = t) {now t : Datetime}
    (h : P.ReadBy now t) : t ≤ now := by
  obtain ⟨t₀, hle, hread⟩ := h
  exact hclock t₀ t hread ▸ hle

/-- The entries of a step that change a row are of a process that holds it. -/
theorem Reachable.new_change (h : Reachable P w) {mv : Move (machine P)}
    (hs : (machine P).step mv w = some w')
    {en : Entry} (hen : en ∈ w'.shared.core.history) (hch : en.Changes j) :
    en ∈ w.shared.core.history ∨ ∃ ch op k, mv = .run en.pid ch ∧
      w.procs en.pid = some (op, .call .commit k) ∧ w.shared.locks (.job j) = some en.pid ∧
      w'.shared.staged en.pid = [] := by
  obtain ⟨l, hl, -⟩ := step_history hs
  rw [hl] at hen
  rcases List.mem_append.mp hen with hen | hen
  · obtain ⟨st, hev, hrows⟩ := hch
    obtain ⟨ch, op, k, rfl, hp, -, -, hst, -⟩ := h.new_stmt hs hl hen hev
    refine .inr ⟨ch, op, k, rfl, hp, (h.inv.staged hst).rows _ hrows, ?_⟩
    rcases Machine.step_cases hs with ⟨_, _, _, hmv, -⟩ |
      ⟨q, ch', c', o, k', r, s, hmv, hq, he, rfl⟩ |
      ⟨_, _, _, hmv, -⟩ | ⟨_, _, hmv, -⟩
    · cases hmv
    · cases hmv
      rw [hp] at hq
      cases hq
      refine (exec_effect he).commit_staged.resolve_left fun hsame => ?_
      rw [show s.core.history = l ++ w.shared.core.history from hl,
        List.append_left_eq_self] at hsame
      rw [hsame] at hen
      cases hen
    · cases hmv
    · cases hmv
  · exact .inl hen

theorem OnTime.staged_step (h : OnTime w.shared) (hw : Reachable P w) {mv : Move (machine P)}
    (hok : Undisturbed w mv) (hs : (machine P).step mv w = some w') (q : Pid) (j : Uuid)
    (st : JobStmt) (hst : .updateJob j st ∈ w'.shared.staged q) :
    ∀ en ∈ w'.shared.core.history, en.Changes j → en.clock ≤ st.now := by
  intro en hen hch
  rcases step_staged_cases hs hst with hold | ⟨ch, op, k, rfl, hp, hmatched⟩
  · rcases hw.new_change hs hen hch with hen | ⟨ch, op, k, rfl, hp, hlock, hnil⟩
    · exact h.staged q j st hold en hen hch
    · -- the row is held by whoever commits, and by whoever has staged the update
      have hheld := (hw.inv.staged hold).rows (.job j) (List.mem_singleton_self _)
      have hq : q = en.pid := ne_of_locks hlock hheld
      rw [hq, hnil] at hst
      cases hst
  · rcases hw.new_change hs hen hch with hen | ⟨ch', op', k', hmv, hp', -⟩
    · obtain ⟨-, -, hfirst, -⟩ := hw.pre hp
      have hview : (w.shared.view q).job j = w.shared.core.db.job j :=
        job_applyAll (hfirst j (List.mem_singleton_self _))
      cases hrow : w.shared.core.db.job j with
      | none =>
        rw [hrow] at hview
        simp [Stmt.outcome, hview] at hmatched
      | some row =>
        rw [hrow] at hview
        rw [outcome_updateJob hview] at hmatched
        split at hmatched
        · rename_i hguard
          exact hok q ch op j st k row rfl hp hrow hguard en hen hch
        · cases hmatched
    · cases hmv
      rw [hp] at hp'
      cases hp'

/-- The row after a step: as before, or later. -/
theorem OnTime.row_step (h : OnTime w.shared) (hw : Reachable P w)
    (hclock : ∀ t r, P.reads t r = true → r = t) {mv : Move (machine P)}
    (hs : (machine P).step mv w = some w') {row' : Job} (hj : w'.shared.core.db.job j = some row') :
    row'.Ordered ∧ (∃ en ∈ w'.shared.core.history, en.Changes j ∧ row'.TimesUpTo en.clock) ∧
      ∀ row, w.shared.core.db.job j = some row → row.updatedAt ≤ row'.updatedAt := by
  have hsame : w.shared.core.db.job j = some row' →
      row'.Ordered ∧ (∃ en ∈ w'.shared.core.history, en.Changes j ∧ row'.TimesUpTo en.clock) ∧
        ∀ row, w.shared.core.db.job j = some row → row.updatedAt ≤ row'.updatedAt := by
    intro hold
    obtain ⟨en, hen, hch, htimes⟩ := h.changed j row' hold
    refine ⟨h.ordered j row' hold, ⟨en, (hw.extends hs).history.subset hen, hch, htimes⟩,
      fun row hrow => ?_⟩
    rw [hold] at hrow
    cases hrow
    exact le_refl _
  rcases hw.commits hs with hq | ⟨p, ch, op, k, rfl, -, htxn, hdb, hh⟩
  · exact hsame (by rwa [Db.job, hq.jobs] at hj)
  rw [hdb] at hj
  rcases htxn.row_cases hj with hold | ⟨hnone, -⟩ | ⟨row, st, hrow, -, -, rfl, hmem⟩
  · exact hsame hold
  · obtain ⟨hmem, hcreated, hupdated, hstarted⟩ := htxn.row_new hnone hj
    have hid : row'.id = j := Db.job_id hj
    refine ⟨fun t ht => ?_, ⟨_, hh ▸ Core.mem_history_commit hmem p, ⟨_, rfl, ?_⟩, ?_⟩,
      fun row hrow => ?_⟩
    · rw [hstarted] at ht
      cases ht
    · rw [← hid]
      exact List.mem_cons_self
    · refine ⟨hcreated.le hclock, hupdated.le hclock, fun t ht => ?_⟩
      rw [hstarted] at ht
      cases ht
    · rw [hnone] at hrow
      cases hrow
  · obtain ⟨en, hen, hch, htimes⟩ := h.changed j row hrow
    have hle := h.staged p j st hmem en hen hch
    have hbefore : row.TimesUpTo st.now := ⟨htimes.createdAt.trans hle, htimes.updatedAt.trans hle,
      fun t ht => (htimes.startedAt t ht).trans hle⟩
    have hread : st.now ≤ w.shared.core.clock := (htxn.readBy hmem).le hclock
    refine ⟨(h.ordered j row hrow).set hbefore, ⟨_, hh ▸ Core.mem_history_commit hmem p,
      ⟨_, rfl, List.mem_singleton_self _⟩, hbefore.set hread⟩, fun row₀ hrow₀ => ?_⟩
    rw [hrow] at hrow₀
    cases hrow₀
    rw [updatedAt_set]
    exact hbefore.updatedAt

/-- **The times of a row go forward**, with one clock for everybody, in every run in which no update
finds its row changed after the time it writes: a job is created, started and finished in this
order, and the next update of a row is never earlier than the last. -/
theorem timestamps_ordered (hclock : ∀ t r, P.reads t r = true → r = t)
    (h : (machine P).ReachBy Undisturbed (World.init P) w) :
    (∀ j row, w.shared.core.db.job j = some row → row.Ordered) ∧
    ∀ mv w', (machine P).step mv w = some w' → ∀ j row row', w.shared.core.db.job j = some row →
      w'.shared.core.db.job j = some row' → row.updatedAt ≤ row'.updatedAt := by
  have hall : Reachable P w ∧ OnTime w.shared := by
    refine h.invariant (I := fun w => Reachable P w ∧ OnTime w.shared) ⟨.refl, ?_⟩
      fun w₁ w₂ mv hi hok hs => ⟨hi.1.step hs, ?_⟩
    · refine ⟨fun j row hj => ?_, fun j row hj => ?_, fun q j st hst => ?_⟩
      · cases hj
      · cases hj
      · cases hst
    · exact ⟨fun j row hj => (hi.2.row_step hi.1 hclock hs hj).1,
        fun j row hj => (hi.2.row_step hi.1 hclock hs hj).2.1,
        fun q j st => hi.2.staged_step hi.1 hok hs q j st⟩
  exact ⟨hall.2.ordered, fun mv w' hs j row row' hrow hrow' =>
    (hall.2.row_step hall.1 hclock hs hrow').2.2 row hrow⟩

/-- A test that is good enough: nothing at all was committed after the time an update writes. -/
def writesLatest (w : World (machine P)) : Move (machine P) → Bool
  | .run p _ => match w.procs p with
    | some (_, .call (.write (.updateJob _ st)) _) => w.shared.core.history.all fun en =>
        en.clock ≤ st.now
    | _ => true
  | _ => true

theorem undisturbed_of_writesLatest (w : World (machine P)) (mv : Move (machine P))
    (h : writesLatest w mv = true) : Undisturbed w mv := by
  intro p ch op j st k row hmv hp _ _ en hen _
  subst hmv
  simp only [writesLatest, hp, List.all_eq_true, decide_eq_true_eq] at h
  exact h en hen

/-- The job of the run, claimed at once and completed a second later. -/
theorem timestamps_ordered_completed : ∃ w : World (machine .default), Reachable .default w ∧
    ∃ row, w.shared.core.db.job 10 = some row ∧ row.startedAt = some 0 ∧
      row.finishedAt = some (seconds 1) ∧ row.Ordered := by
  have hrun : (((machine .default).runIf writesLatest (claimedMoves ++ [.env (.tick 1000000)] ++
      completeMoves 2 (seconds 1)) (World.init .default)).bind fun w =>
      (w.shared.core.db.job 10).map fun row =>
        (row.startedAt, row.finishedAt)) = some (some 0, some (seconds 1)) := by
    decide +kernel
  obtain ⟨w, hw, hrow⟩ := Option.bind_eq_some_iff.mp hrun
  obtain ⟨row, hj, htimes⟩ := Option.map_eq_some_iff.mp hrow
  cases hs : row.startedAt
  · rw [hs] at htimes
    cases htimes
  · rw [Prod.mk.injEq] at htimes
    have hreach : (machine .default).ReachBy Undisturbed (World.init .default) w :=
      .of_runIf undisturbed_of_writesLatest hw
    refine ⟨w, hreach.reach, row, hj, htimes.1, htimes.2,
      (timestamps_ordered (fun t r hr => ?_) hreach).1 10 row hj⟩
    simpa [Params.default] using hr

/-- A user asks for a job to be cancelled, and reads the clock; then the job is published, claimed,
and queued for a retry, a second later; then the cancellation goes through. -/
def lateCancelMoves : List (Move (machine .default)) :=
  [.env (.register 1)] ++ createMoves 0 1 10 11 "k" .failure 0 ++
    [.start 3 (.cancelJob ⟨1, .user⟩ 10), .run 3 (.time 0), .env (.tick 1000000)] ++
    publishMoves 1 (seconds 1) ++ claimMoves 2 ⟨0, .dispatch ⟨11, 10, 0⟩⟩ 20 (seconds 1) ++
    retryMoves 2 12 (seconds 1) ++ answers 3 3 ++ [.run 3 (.time (seconds 1))] ++ answers 3 1

/-- It is finished before it was started, and updated before it was last updated. -/
theorem timestamps_go_back : (∀ t r, Params.default.reads t r = true → r = t) ∧
    ∃ (w w' : World (machine .default)) (mv : Move (machine .default)), Reachable .default w ∧
      (machine .default).step mv w = some w' ∧ ∃ row row', w.shared.core.db.job 10 = some row ∧
        w'.shared.core.db.job 10 = some row' ∧ row'.updatedAt < row.updatedAt ∧ ¬ row'.Ordered := by
  refine ⟨fun t r hr => by simpa [Params.default] using hr, ?_⟩
  have hrun : ((machine .default).run lateCancelMoves (World.init .default)).bind (fun w =>
      ((machine .default).step (.run 3 .answer) w).map fun w' =>
        ((w.shared.core.db.job 10).map Job.updatedAt,
          (w'.shared.core.db.job 10).map fun row =>
          (row.updatedAt, row.startedAt, row.finishedAt))) =
      some (some (seconds 1), some (0, some (seconds 1), some 0)) := by
    decide +kernel
  obtain ⟨w, hw, hstep⟩ := Option.bind_eq_some_iff.mp hrun
  obtain ⟨w', hs, hrows⟩ := Option.map_eq_some_iff.mp hstep
  rw [Prod.mk.injEq, Option.map_eq_some_iff, Option.map_eq_some_iff] at hrows
  obtain ⟨⟨row, hrow, hbefore⟩, row', hrow', hafter⟩ := hrows
  simp only [Prod.mk.injEq] at hafter
  obtain ⟨hupdated, hstarted, hfinished⟩ := hafter
  refine ⟨w, w', _, .of_run hw, hs, row, row', hrow, hrow', ?_, fun hordered => ?_⟩
  · rw [hbefore, hupdated]
    decide
  · exact absurd ((hordered (seconds 1) hstarted).2 0 hfinished) (by decide)

end CloudJob
