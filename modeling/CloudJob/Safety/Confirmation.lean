import CloudJob.Callers
import CloudJob.Contract.Staged
import CloudJob.Safety.Publishing

/-!
# `Safety/Confirmation.lean` — what becomes of a publish

`_process_claimed_event_once` either gets its message confirmed, and then commits the queued job
together with the published event, or it does not, and then its transaction is rolled back and a
second one records the failure. `settling` follows a publisher through the processing of one event,
by its text alone; `ledger` writes down what the processing has committed. Nothing is assumed of the
database the publishers run on, so that a payload need not be valid and a statement need not
match. -/

set_option autoImplicit false

namespace CloudJob

open Lib

/-! ## The processing of one event -/

/-- Where a publisher stands in the processing of an event: the event it locked, what it has staged,
which publishes have returned since, and whether the validation or a publish has raised. -/
structure Processing where
  event : Option OutboxEvent := none
  /-- The messages whose publish has returned, in the transaction. -/
  confirmed : List DispatchOutboxMessage := []
  /-- A publish has returned. -/
  sent : Bool := false
  /-- The validation or a publish has raised. -/
  raised : Bool := false
  rolledBack : Bool := false
  /-- The first clock reading after the rollback. -/
  failedAt : Option Datetime := none
  staged : List Stmt := []
  /-- A commit was tried. -/
  closed : Bool := false
  /-- A commit has raised, and the transaction is still to be left. -/
  torn : Bool := false

/-- The payload of the event does not validate. -/
def Processing.isInvalid (q : Processing) : Bool :=
  q.event.any fun ev => match modelValidate ev.payload with
    | .ok _ => false
    | .error _ => true

theorem Processing.event_of_isInvalid {q : Processing} (h : q.isInvalid = true) :
    ∃ ev, q.event = some ev := by
  unfold Processing.isInvalid at h
  cases hev : q.event with
  | none =>
    rw [hev] at h
    cases h
  | some ev => exact ⟨ev, rfl⟩

/-- What is committed after a failure: nothing, or the record of it. -/
inductive Processing.RecordsFailure (q : Processing) : List Stmt → Prop where
  | nothing {ev : OutboxEvent} : q.event = some ev → RecordsFailure q []
  | recorded {ev : OutboxEvent} {error : String} {t next now : Datetime} : q.event = some ev →
      error.length ≤ MAX_OUTBOX_ERROR_LENGTH → q.failedAt = some t → t + seconds 1 ≤ next →
      next ≤ t + seconds MAX_OUTBOX_BACKOFF_SECONDS →
      RecordsFailure q [.updateEvent ev.id (.recordPublishFailure error next now)]

theorem Processing.RecordsFailure.mono {q q' : Processing} {l : List Stmt} (h : q.RecordsFailure l)
    (hevent : q'.event = q.event) (hfailed : q'.failedAt = q.failedAt) : q'.RecordsFailure l := by
  cases h with
  | nothing hev => exact .nothing (hevent.trans hev)
  | recorded hev herror ht hlow hhigh =>
    exact .recorded (hevent.trans hev) herror (hfailed.trans ht) hlow hhigh

/-- A job is queued in one transaction with the event whose publish has returned. -/
def Processing.Confirms (q : Processing) (l : List Stmt) : Prop :=
  ∀ j now, .updateJob j (.markQueued now) ∈ l → ∃ ev m now', q.event = some ev ∧
    ev.aggregateId = j ∧ modelValidate ev.payload = .ok m ∧ m ∈ q.confirmed ∧
    l = [.updateJob j (.markQueued now), .updateEvent ev.id (.markPublished now')]

/-- The text of a publisher. Nothing is published after a commit was tried; what is committed after
a failure is the record of it; and where a publish was tried, there is one commit. -/
@[reducible] def settling : Discipline sig where
  State := Processing
  ok q o := match o with
    | .lockUnpublishedEvent _ => q.staged = [] ∧ q.torn = false
    | .selectJobForUpdate _ _ => q.closed = false ∧ q.sent = false
    | .publishDispatch m => q.closed = false ∧ q.raised = false ∧
        ∃ ev, q.event = some ev ∧ modelValidate ev.payload = .ok m
    | .commit => q.torn = false ∧ (q.raised = true ∨ q.sent = true → q.closed = false) ∧
        (q.raised = true → q.sent = false ∧ q.RecordsFailure q.staged) ∧ q.Confirms q.staged
    | _ => True
  may q o r := match o, r with
    | .lockUnpublishedEvent e, .ok (some ev) => ev.id = e
    | .selectJobForUpdate j _, .ok (some job) => job.id = j
    | .write (.updateEvent e (.markPublished _)), .ok done =>
        (∃ ev, q.event = some ev ∧ ev.id = e) → done = true
    | _, _ => True
  next q o r := match o, r with
    | .lockUnpublishedEvent _, .ok found => { event := found }
    | .lockUnpublishedEvent _, .error _ => {}
    | .selectJobForUpdate _ _, .ok (some job) =>
        { q with raised := q.raised || (job.status.isDispatchable && q.isInvalid) }
    | .publishDispatch m, .ok _ => { q with confirmed := m :: q.confirmed, sent := true }
    | .publishDispatch _, .error _ => { q with raised := true }
    | .now, .ok t => { q with failedAt := q.failedAt.or (if q.rolledBack then some t else none) }
    | .write st, .ok true => { q with staged := q.staged ++ [st] }
    | .commit, .ok _ => { q with staged := [], confirmed := [], closed := true }
    | .commit, .error _ => { q with closed := true, torn := true }
    | .rollback, _ => { q with staged := [], confirmed := [], torn := false, rolledBack := true }
    | .aexit _, _ => { q with staged := [], confirmed := [], torn := false }
    | _, _ => q

/-- Outside of any transaction, if no exception is on its way. -/
def Ends {α : Type} : Except Exc α → Processing → Prop
  | .ok _, q => q.staged = [] ∧ q.torn = false
  | .error _, _ => True

theorem settling_withUow {α : Type} {body : Code α} {q : Processing}
    (h : settling.Obeys body (fun _ _ => True) q) : settling.Obeys (withUow body) Ends q := by
  refine .perform trivial (fun _ _ => .bind (.attempt (h.mono fun r q' _ => ?_))) fun _ _ => trivial
  cases r with
  | ok a => exact .perform trivial (fun _ _ => ⟨rfl, rfl⟩) fun _ _ => trivial
  | error e => exact .perform trivial (fun _ _ => trivial) fun _ _ => trivial

/-- A call of the `try` has raised. -/
structure Processing.Failing (q : Processing) (ev : OutboxEvent) : Prop where
  event : q.event = some ev
  sent : q.sent = false
  closed : q.raised = true → q.closed = false
  rolledBack : q.rolledBack = false
  failedAt : q.failedAt = none

/-- Nothing was published and nothing has raised, and the transaction queues no job. -/
structure Processing.Plain (q : Processing) (ev : OutboxEvent) : Prop extends q.Failing ev where
  raised : q.raised = false
  torn : q.torn = false
  queues : ∀ j now, .updateJob j (.markQueued now) ∉ q.staged

/-- The transaction of a failure was rolled back, and a clock read. -/
structure Processing.Recording (q : Processing) (ev : OutboxEvent) (t : Datetime) : Prop where
  event : q.event = some ev
  sent : q.sent = false
  closed : q.raised = true → q.closed = false
  torn : q.torn = false
  staged : q.staged = []
  failedAt : q.failedAt = some t

/-- The event in hand was published, and its job is queued if it was not. -/
structure Processing.Sent (q : Processing) (ev : OutboxEvent) : Prop where
  event : q.event = some ev
  valid : ∃ m, modelValidate ev.payload = .ok m ∧ m ∈ q.confirmed
  closed : q.closed = false
  raised : q.raised = false
  torn : q.torn = false
  staged : q.staged = [] ∨ ∃ now, q.staged = [.updateJob ev.aggregateId (.markQueued now)]

section Processing

variable {q : Processing} {ev : OutboxEvent}

theorem Processing.Plain.commit (h : q.Plain ev) : settling.ok q .commit := by
  refine ⟨h.torn, fun hq => ?_, fun hq => ?_, fun j now hmem => absurd hmem (h.queues j now)⟩
  · rw [h.raised, h.sent] at hq
    simp at hq
  · rw [h.raised] at hq
    cases hq

/-- One more statement, if it is staged. -/
theorem Processing.Plain.write {st : Stmt} (h : q.Plain ev)
    (hst : ∀ j now, st ≠ .updateJob j (.markQueued now)) (done : Bool) :
    Processing.Plain (settling.next q (.write st) (.ok done)) ev := by
  cases done with
  | false => exact h
  | true =>
    refine ⟨⟨h.event, h.sent, h.closed, h.rolledBack, h.failedAt⟩, h.raised, h.torn,
      fun j now hmem => ?_⟩
    rcases List.mem_append.mp hmem with hmem | hmem
    · exact h.queues j now hmem
    · exact hst j now (List.mem_singleton.mp hmem).symm

theorem Processing.Plain.now (h : q.Plain ev) (t : Datetime) :
    Processing.Plain (settling.next q .now (.ok t)) ev := by
  have hfailed : q.failedAt.or (if q.rolledBack then some t else none) = none := by
    rw [h.failedAt, h.rolledBack]
    rfl
  exact ⟨⟨h.event, h.sent, h.closed, h.rolledBack, hfailed⟩, h.raised, h.torn, h.queues⟩

/-- The commit of a published event. -/
theorem Processing.Sent.commit {now : Datetime} (h : q.Sent ev) :
    settling.ok { q with staged := q.staged ++ [.updateEvent ev.id (.markPublished now)] }
    .commit := by
  refine ⟨h.torn, fun _ => h.closed, fun hq => ?_, fun j t hmem => ?_⟩
  · rw [show q.raised = false from h.raised] at hq
    cases hq
  · obtain ⟨m, hm, hmem'⟩ := h.valid
    rcases h.staged with hst | ⟨t', hst⟩
    · rw [hst] at hmem
      simp at hmem
    · rw [hst] at hmem
      simp only [List.cons_append, List.nil_append, List.mem_cons, List.not_mem_nil, or_false,
        Stmt.updateJob.injEq, JobStmt.markQueued.injEq, reduceCtorEq] at hmem
      obtain ⟨rfl, rfl⟩ := hmem
      exact ⟨ev, m, now, h.event, rfl, hm, hmem', by rw [hst]; rfl⟩

theorem Processing.Sent.now (h : q.Sent ev) (t : Datetime) :
    Processing.Sent (settling.next q .now (.ok t)) ev :=
  ⟨h.event, h.valid, h.closed, h.raised, h.torn, h.staged⟩

theorem Processing.Failing.recording (h : q.Failing ev) (t : Datetime) :
    Processing.Recording (settling.next (settling.next q .rollback (.ok ())) .now (.ok t)) ev t :=
  ⟨h.event, h.sent, h.closed, rfl, rfl, by simp [h.failedAt]⟩

theorem Processing.Recording.now {t : Datetime} (h : q.Recording ev t) (now : Datetime) :
    Processing.Recording (settling.next q .now (.ok now)) ev t :=
  ⟨h.event, h.sent, h.closed, h.torn, h.staged, by simp [h.failedAt]⟩

/-- The commit of the second transaction. -/
theorem Processing.Recording.commit {error : String} {t next now : Datetime} (h : q.Recording ev t)
    (herror : error.length ≤ MAX_OUTBOX_ERROR_LENGTH) (hlow : t + seconds 1 ≤ next)
    (hhigh : next ≤ t + seconds MAX_OUTBOX_BACKOFF_SECONDS) (done : Bool) :
    settling.ok (settling.next q (.write (.updateEvent ev.id
      (.recordPublishFailure error next now))) (.ok done)) .commit := by
  have hok : ∀ l, Processing.RecordsFailure { q with staged := l } l →
    (∀ j now, .updateJob j (.markQueued now) ∉ l) →
      settling.ok { q with staged := l } .commit := fun l hl hno =>
    ⟨h.torn, fun hq => h.closed (hq.resolve_right (by simp [h.sent])), fun _ => ⟨h.sent, hl⟩,
      fun j now hmem => absurd hmem (hno j now)⟩
  cases done with
  | false =>
    have heq : q = { q with staged := [] } := by rw [← h.staged]
    show settling.ok q .commit
    rw [heq]
    exact hok [] (.nothing h.event) nofun
  | true =>
    have hstaged : q.staged ++ [.updateEvent ev.id (.recordPublishFailure error next now)] =
        [.updateEvent ev.id (.recordPublishFailure error next now)] := by rw [h.staged,
          List.nil_append]
    show settling.ok { q with staged := q.staged ++ [_] } .commit
    rw [hstaged]
    exact hok _ (.recorded h.event herror h.failedAt hlow hhigh) (by simp)

end Processing

/-- How the `try` ends. -/
def Tried (ev : OutboxEvent) : Except Exc Bool → Processing → Prop
  | .ok true, _ => True
  | .ok false, q => q.Sent ev
  | .error _, q => q.Failing ev

theorem add_seconds_le {a b : Nat} (t : Datetime) (h : a ≤ b) : t + seconds a ≤ t + seconds b := by
  have hseconds : seconds a ≤ seconds b := by
    unfold seconds
    omega
  exact Int.add_le_add_left hseconds t

theorem length_truncateError (n : Nat) (error : String) (hn : 3 ≤ n) :
    (truncateError n error).length ≤ n := by
  unfold truncateError
  split
  · assumption
  · have hlen : (error.toList.take (n - 3)).length ≤ n - 3 := List.length_take_le ..
    rw [String.length_append, String.length_ofList]
    have hdots : "...".length = 3 := rfl
    omega

namespace OutboxPublisher

theorem one_le_computeRetryDelaySeconds (n : Nat) : 1 ≤ computeRetryDelaySeconds n :=
  le_min Nat.one_le_two_pow (by decide)

theorem computeRetryDelaySeconds_le (n : Nat) :
    computeRetryDelaySeconds n ≤ MAX_OUTBOX_BACKOFF_SECONDS :=
  min_le_right _ _

variable {q : Processing} {ev : OutboxEvent}

/-- `mark_published` and the commit, where nothing was published. -/
theorem settlePlain_obeys {e : Uuid} {now : Datetime} (hq : q.Plain ev) :
    settling.Obeys ((Outbox.markPublished e now).bind fun _ =>
      CloudJob.commit.bind fun _ => .ret true) (Tried ev) q := by
  unfold Outbox.markPublished
  simp only [Prog.bind_eq, Prog.pure_eq, Prog.bind_assoc, Prog.ret_bind]
  refine .perform trivial (fun done _ => ?_) fun _ _ => hq.toFailing
  have hnext := Processing.Plain.write hq (fun j t hst =>
    nomatch (hst : Stmt.updateEvent e (.markPublished now) = .updateJob j (.markQueued t))) done
  refine .perform hnext.commit (fun _ _ => trivial) fun _ _ => ?_
  exact ⟨hnext.event, hnext.sent, fun hr => absurd hr (by rw [hnext.raised]; nofun),
    hnext.rolledBack,
    hnext.failedAt⟩

theorem discardPlain_obeys {status : JobStatus} (hq : q.Plain ev) :
    settling.Obeys ((discardNonDispatchableEvent ev status).bind fun _ =>
        CloudJob.commit.bind fun _ => .ret true)
      (Tried ev) q := by
  unfold discardNonDispatchableEvent JobLogs.createSystemLog utcNow
  simp only [Prog.bind_eq, Prog.pure_eq, Prog.bind_assoc, Prog.ret_bind]
  refine .perform trivial (fun t _ => ?_) fun _ _ => hq.toFailing
  have hq := hq.now t
  refine .perform trivial (fun done _ => ?_) fun _ _ => hq.toFailing
  refine .perform trivial (fun t' _ => ?_) fun _ _ =>
    (hq.write (fun _ _ hst => by cases hst) done).toFailing
  exact settlePlain_obeys ((hq.write (fun _ _ hst => by cases hst) done).now t')

/-- The `try` body of `_process_claimed_event_once`. -/
theorem stageAndPublish_settles {job : StoredJobDTO} (hj : job.id = ev.aggregateId) :
    settling.Obeys (stageAndPublish ev job) (Tried ev)
      { event := some ev, raised := Processing.isInvalid { event := some ev } } := by
  have hsend : ∀ (q : Processing) (m : DispatchOutboxMessage), q.Failing ev → q.raised = false →
      q.closed = false → q.torn = false → modelValidate ev.payload = .ok m →
      (q.staged = [] ∨ ∃ now, q.staged = [.updateJob ev.aggregateId (.markQueued now)]) →
      settling.Obeys ((call (.publishDispatch m)).bind fun _ => .ret false) (Tried ev) q := by
    intro q m hq hraised hclosed htorn hm hstaged
    refine .perform ⟨hclosed, hraised, ev, hq.event, hm⟩ (fun _ _ => ?_) fun _ _ => ?_
    · exact ⟨hq.event, ⟨m, hm, List.mem_cons_self⟩, hclosed, hraised, htorn, hstaged⟩
    · exact ⟨hq.event, hq.sent, fun _ => hclosed, hq.rolledBack, hq.failedAt⟩
  unfold stageAndPublish
  cases hm : modelValidate ev.payload with
  | error e => exact ⟨rfl, rfl, fun _ => rfl, rfl, rfl⟩
  | ok m =>
    have hvalid : Processing.isInvalid { event := some ev } = false := by
      simp [Processing.isInvalid, hm]
    rw [hvalid]
    show settling.Obeys (if job.status = .pending then _ else _) _ _
    split
    · have hplain : Processing.Plain { event := some ev } ev :=
        ⟨⟨rfl, rfl, nofun, rfl, rfl⟩, rfl, rfl, nofun⟩
      refine .perform trivial (fun t _ => ?_) fun _ _ => hplain.toFailing
      refine .perform trivial (fun queued _ => ?_) fun _ _ => hplain.toFailing
      cases queued with
      | true => exact hsend _ m ⟨rfl, rfl, nofun, rfl, rfl⟩ rfl rfl rfl hm (.inr ⟨t, by rw [← hj]; rfl⟩)
      | false => exact discardPlain_obeys hplain
    · exact hsend _ m ⟨rfl, rfl, nofun, rfl, rfl⟩ rfl rfl rfl hm (.inl rfl)

/-- The second transaction, after the rollback of the first. -/
theorem recordFailure_settles {error : String} (hq : q.Failing ev) :
    settling.Obeys ((recordFailureAfterRollback ev error).bind fun _ => .ret true)
      (fun _ _ => True) q := by
  unfold recordFailureAfterRollback Outbox.recordPublishFailure utcNow
  simp only [Prog.bind_eq, Prog.pure_eq, Prog.bind_assoc, Prog.ret_bind]
  refine .perform trivial (fun _ _ => ?_) fun _ _ => trivial
  refine .perform trivial (fun t _ => ?_) fun _ _ => trivial
  have hdelay := one_le_computeRetryDelaySeconds (ev.publishAttempts + 1)
  have hcap := computeRetryDelaySeconds_le (ev.publishAttempts + 1)
  refine .bind ((settling_withUow ?_).mono fun r _ _ => by cases r <;> trivial)
  refine .perform trivial (fun now _ => ?_) fun _ _ => trivial
  have hrecording := (hq.recording t).now now
  refine .perform trivial (fun done _ => ?_) fun _ _ => trivial
  rw [← Prog.bind_ret CloudJob.commit]
  refine .perform (hrecording.commit (length_truncateError _ error (by decide)) ?_ ?_ done)
    (fun _ _ => trivial) fun _ _ => trivial
  · exact add_seconds_le t hdelay
  · exact add_seconds_le t hcap

/-- `_process_claimed_event_once` for an event and a job that it holds. -/
theorem processLocked_settles {job : StoredJobDTO} (hj : job.id = ev.aggregateId) :
    settling.Obeys (processLocked ev job) (fun _ _ => True)
      { event := some ev
        raised := job.status.isDispatchable && Processing.isInvalid { event := some ev } } := by
  unfold processLocked utcNow
  simp only [Prog.bind_eq, Prog.pure_eq]
  split
  · rename_i hdispatchable
    rw [hdispatchable, Bool.true_and]
    refine .bind (.attempt ((stageAndPublish_settles hj).mono fun r q hr => ?_))
    cases r with
    | error e => exact recordFailure_settles hr
    | ok returned =>
      cases returned with
      | true => trivial
      | false =>
        have hr : q.Sent ev := hr
        refine .perform trivial (fun t _ => ?_) fun _ _ => trivial
        have hr := hr.now t
        unfold Outbox.markPublished
        simp only [Prog.bind_eq, Prog.pure_eq, Prog.bind_assoc, Prog.ret_bind]
        refine .perform trivial (fun done hdone => ?_) fun _ _ => trivial
        obtain rfl : done = true := hdone ⟨ev, hr.event, rfl⟩
        exact .perform hr.commit (fun _ _ => trivial) fun _ _ => trivial
  · rename_i hdispatchable
    rw [Bool.not_eq_true] at hdispatchable
    rw [hdispatchable, Bool.false_and]
    have hplain : Processing.Plain { event := some ev } ev :=
      ⟨⟨rfl, rfl, nofun, rfl, rfl⟩, rfl, rfl, nofun⟩
    exact (discardPlain_obeys hplain).mono fun _ _ _ => trivial

theorem processClaimedEventOnce_settles (e : Uuid) {q : Processing} (hst : q.staged = [])
    (htorn : q.torn = false) : settling.Obeys (processClaimedEventOnce e) Ends q := by
  unfold processClaimedEventOnce Outbox.getByIdForUpdateUnpublished Jobs.getByIdForUpdate
  simp only [Prog.bind_eq, Prog.pure_eq, Prog.bind_assoc, Prog.ret_bind]
  refine settling_withUow (.perform ⟨hst, htorn⟩ (fun found _ => ?_) fun _ _ => trivial)
  cases found with
  | none => trivial
  | some ev =>
    refine .perform ⟨rfl, rfl⟩ (fun job hjob => ?_) fun _ _ => trivial
    cases job with
    | none =>
      have hplain : Processing.Plain { event := some ev } ev :=
        ⟨⟨rfl, rfl, nofun, rfl, rfl⟩, rfl, rfl, nofun⟩
      refine .perform trivial (fun t _ => ?_) fun _ _ => trivial
      exact (settlePlain_obeys (hplain.now t)).mono fun _ _ _ => trivial
    | some job => exact processLocked_settles (hjob : (toStoredJobDto job).id = ev.aggregateId)

theorem processAll_settles : ∀ (ids : List Uuid) {q : Processing}, q.staged = [] → q.torn = false →
    settling.Obeys (processAll ids) (fun _ _ => True) q
  | [], _, _, _ => trivial
  | e :: rest, q, hst, htorn => by
    refine .bind ((processClaimedEventOnce_settles e hst htorn).mono fun r q' hr => ?_)
    cases r with
    | error e => trivial
    | ok processed =>
      refine .bind ((processAll_settles rest hr.1 hr.2).mono fun r q'' _ => ?_)
      cases r <;> trivial

theorem publishDueBatchOnce_settles (settings : Settings) :
    settling.Obeys (publishDueBatchOnce settings) (fun _ _ => True) {} := by
  unfold publishDueBatchOnce utcNow Outbox.claimDueBatch
  simp only [Prog.bind_eq, Prog.pure_eq]
  refine .perform trivial (fun t _ => .bind ?_) fun _ _ => trivial
  refine (settling_withUow ?_).mono fun r q hr => ?_
  · exact .perform trivial (fun _ _ => trivial) fun _ _ => trivial
  · cases r with
    | error e => trivial
    | ok ids => exact processAll_settles ids hr.1 hr.2

end OutboxPublisher

/-! ## What only a publisher does -/

/-- Every operation but the publisher's. -/
theorem Call.prog_abstains (P : Params) {c : Call} (h : ¬ c.isPublisher) : Abstains (c.prog P) := by
  cases c with
  | createJob => exact .bind (JobService.createJob_abstains _ _ _ _ _ _) fun _ => trivial
  | cancelJob => exact .bind (JobService.cancelJob_common _ _).abstains fun _ => trivial
  | publishDueBatchOnce settings => exact absurd ⟨settings, rfl⟩ h
  | handleMessage => exact .bind (JobWorker.handleMessage_common _ _).abstains fun _ => trivial
  | recoverDueBatchOnce =>
    exact .bind (StaleRunningRecovery.recoverDueBatchOnce_common _).abstains fun _ => trivial

/-! ## What a processing has committed -/

/-- What the processing of an event has committed, and whether a commit of it has failed. A commit
that took effect, though its answer was lost, has not failed. -/
structure Ledger where
  done : List Stmt := []
  commitFailed : Bool := false

/-- A call that went `ch`, with `staged` in the transaction. -/
def Ledger.call (l : Ledger) (staged : List Stmt) (ch : Choice) : Op → Ledger
  | .lockUnpublishedEvent _ => {}
  | .commit => match ch with
    | .fails _ => { l with commitFailed := true }
    | _ => { l with done := l.done ++ staged }
  | _ => l

/-- Written down along a run. -/
def ledger {P : Params} : Notes (machine P) (Pid → Ledger) := fun w m _ L => match m with
  | .run p ch => match w.procs p with
    | some (_, .call o _) => Function.update L p ((L p).call (w.shared.staged p) ch o)
    | _ => L
  | .start p _ => Function.update L p {}
  | .crash p => Function.update L p {}
  | .env _ => L

variable {P : Params} {w w' : World (machine P)} {p : Pid} {L : Pid → Ledger} {σ : Pid → Processing}
  {s s' : Shared} {q : Processing} {l : Ledger} {o : Op} {ch : Choice}

theorem ledger_run {c : Call} {k : Except Exc o.Ret → Code Outcome}
    (hp : w.procs p = some (c, .call o k)) :
    ledger w (.run p ch) w' L = Function.update L p ((L p).call (w.shared.staged p) ch o) := by
  simp only [ledger, hp]

theorem ledger_other {mv : Move (machine P)} (hp : mv.pid ≠ some p) : ledger w mv w' L p = L p := by
  have hne : ∀ {r : Pid}, mv.pid = some r → p ≠ r := fun hr heq => hp (heq ▸ hr)
  cases mv with
  | start r c => exact Function.update_of_ne (hne rfl) ..
  | run r ch =>
    cases hr : w.procs r with
    | none => simp only [ledger, hr]
    | some x =>
      obtain ⟨c, prog⟩ := x
      cases prog with
      | call o k =>
        rw [ledger_run hr]
        exact Function.update_of_ne (hne rfl) ..
      | _ => simp only [ledger, hr]
  | crash r => exact Function.update_of_ne (hne rfl) ..
  | env e => rfl

/-- A call changes the tables by what it adds to the ledger. -/
theorem exec_ledger {r : Except Exc o.Ret} (he : s.exec P.reads p o ch = some (r, s')) :
    s'.core.db = s.core.db.applyAll (Ledger.call {} (s.staged p) ch o).done := by
  by_cases ho : o.ends = false
  · rw [((exec_effect he).open ho).2.2]
    cases o with
    | commit => cases ho
    | _ => rfl
  · cases o with
    | commit => cases ch with
      | answer =>
        cases he
        rw [(Core.spend_same _ _).1]
        rfl
      | fails text => cases he; rfl
      | failsAfter text => cases he; rfl
      | _ => cases he
    | rollback => cases exec_effect he <;> first | rfl | contradiction
    | aexit raised => cases exec_effect he with
      | left => exact (Core.spend_same _ _).1
      | _ => first | rfl | contradiction
    | _ => exact absurd rfl ho

/-- The notes about a publisher fit its transaction. -/
structure Accounted (s : Shared) (p : Pid) (q : Processing) (l : Ledger) : Prop where
  staged : q.torn = false → s.staged p = q.staged
  untried : q.closed = false → l.done = [] ∧ l.commitFailed = false
  failure : q.raised = true → q.RecordsFailure l.done
  lost : q.sent = true → l.commitFailed = true → l.done = []
  present : ∀ ev, q.event = some ev → s.core.db.event ev.id ≠ none

/-- A call that neither ends nor begins a processing, nor writes. -/
theorem Accounted.keep {q' : Processing} (h : Accounted s p q l) (hst : s'.staged p = s.staged p)
    (hdb : ∀ e, s.core.db.event e ≠ none → s'.core.db.event e ≠ none)
    (hstaged : q'.staged = q.staged)
    (htorn : q'.torn = q.torn) (hclosed : q'.closed = q.closed) (hevent : q'.event = q.event)
    (hsent : q'.sent = true → q.sent = true ∨ q.closed = false)
    (hraised : q'.raised = true → q.raised = true ∨ (q.closed = false ∧ ∃ ev, q.event = some ev))
    (hfailed : q.failedAt = none ∨ q'.failedAt = q.failedAt) : Accounted s' p q' l where
  staged ht := by
    rw [hst, hstaged]
    exact h.staged (htorn ▸ ht)
  untried hc := h.untried (hclosed ▸ hc)
  failure hr := by
    rcases hraised hr with hr | ⟨hc, ev, hev⟩
    · have hrec := h.failure hr
      generalize l.done = done at hrec
      cases hrec with
      | nothing hev => exact .nothing (hevent.trans hev)
      | recorded hev herror ht hlow hhigh =>
        have hsame := hfailed.resolve_left (by rw [ht]; nofun)
        exact .recorded (hevent.trans hev) herror (hsame.trans ht) hlow hhigh
    · rw [(h.untried hc).1]
      exact .nothing (hevent.trans hev)
  lost hs hf := by
    rcases hsent hs with hs | hc
    · exact h.lost hs hf
    · exact (h.untried hc).1
  present ev hev := hdb _ (h.present ev (hevent.symm.trans hev))

theorem CallEffect.event_stays (h : CallEffect p o s s') {e : Uuid}
    (he : s.core.db.event e ≠ none) : s'.core.db.event e ≠ none := by
  obtain ⟨ev, hev⟩ := Option.ne_none_iff_exists'.mp he
  obtain ⟨ev', hev', -⟩ := h.extends.events hev
  rw [hev']
  nofun

theorem exec_selectJobForUpdate {j : Uuid} {owner : Option Uuid} {job : Job}
    (he : s.exec P.reads p (.selectJobForUpdate j owner) ch = some (.ok (some job), s')) :
    job.id = j := by
  cases ch with
  | answer =>
    simp only [Shared.exec, Shared.answer] at he
    split at he
    · cases he
    · rename_i job' hjob
      rw [Option.filter_eq_some_iff] at hjob
      split at he
      · cases he
        exact Db.job_id hjob.1
      · cases he
  | _ => cases he

theorem Accounted.begin (hst : s.staged p = []) {found : Option OutboxEvent}
    (hfound : ∀ ev, found = some ev → s.core.db.event ev.id ≠ none) :
    Accounted s p { event := found } {} :=
  ⟨fun _ => hst, fun _ => ⟨rfl, rfl⟩, fun h => Bool.noConfusion h, fun h =>
    Bool.noConfusion h, hfound⟩

/-- The transaction is over, and the processing goes on. -/
theorem Accounted.leave {q' : Processing} (h : Accounted s p q l) (hst : s'.staged p = [])
    (hdb : ∀ e, s.core.db.event e ≠ none → s'.core.db.event e ≠ none)
    (hq : q' = { q with staged := [], confirmed := [], torn := false } ∨
      q' = { q with staged := [], confirmed := [], torn := false, rolledBack := true }) :
    Accounted s' p q' l := by
  have hfailure : ∀ q'' : Processing, q''.event = q.event → q''.failedAt = q.failedAt →
      q.raised = true → q''.RecordsFailure l.done := fun q'' hev hat hr =>
      (h.failure hr).mono hev hat
  rcases hq with rfl | rfl
  · exact ⟨fun _ => hst, h.untried, hfailure _ rfl rfl, h.lost, fun ev hev =>
      hdb _ (h.present ev hev)⟩
  · exact ⟨fun _ => hst, h.untried, hfailure _ rfl rfl, h.lost, fun ev hev =>
      hdb _ (h.present ev hev)⟩

/-- A commit. -/
theorem Accounted.commit {r : Except Exc Unit} (h : Accounted s p q l) (hok : settling.ok q .commit)
    (hdb : ∀ e, s.core.db.event e ≠ none → s'.core.db.event e ≠ none)
    (he : s.exec P.reads p .commit ch = some (r, s')) :
    Accounted s' p (settling.next q .commit r) (l.call (s.staged p) ch .commit) := by
  obtain ⟨htorn, honce, hrecords, -⟩ := hok
  have hst := h.staged htorn
  -- where a publish was tried, this is the first commit
  have hfirst : q.raised = true ∨ q.sent = true → l.done = [] ∧ l.commitFailed = false :=
    fun hq => h.untried (honce hq)
  have hpresent : ∀ ev, q.event = some ev → s'.core.db.event ev.id ≠ none :=
    fun ev hev => hdb _ (h.present ev hev)
  have hdone : ∀ q' : Processing, q'.event = q.event → q'.failedAt = q.failedAt → q.raised = true →
      q'.RecordsFailure (l.done ++ s.staged p) := by
    intro q' hev hat hr
    rw [(hfirst (.inl hr)).1, hst, List.nil_append]
    exact (hrecords hr).2.mono hev hat
  have hlost : q.sent = true → l.commitFailed = true → l.done ++ s.staged p = [] := by
    intro hs hf
    rw [(hfirst (.inr hs)).2] at hf
    cases hf
  cases ch with
  | answer =>
    cases he
    refine ⟨fun _ => ?_, nofun, hdone _ rfl rfl, hlost, hpresent⟩
    rw [Shared.staged_spend]
    exact Shared.staged_release_self
  | fails text =>
    cases he
    exact ⟨nofun, nofun, fun hr => (h.failure hr).mono rfl rfl, fun hs _ =>
      (hfirst (.inr hs)).1, hpresent⟩
  | failsAfter text =>
    cases he
    exact ⟨nofun, nofun, hdone _ rfl rfl, hlost, hpresent⟩
  | _ => cases he

/-- **One call of a publisher.** -/
theorem Accounted.own {r : Except Exc o.Ret} (h : Accounted s p q l) (hok : settling.ok q o)
    (he : s.exec P.reads p o ch = some (r, s')) :
    Accounted s' p (settling.next q o r) (l.call (s.staged p) ch o) := by
  have heff := exec_effect he
  have hdb := fun e => heff.event_stays (e := e)
  have hplain := fun (q' : Processing) (hst : s'.staged p = s.staged p) =>
    (h.keep hst hdb : _ → _ → _ → _ → _ → _ → _ → Accounted s' p q' l)
  cases o with
  | lockUnpublishedEvent e =>
    obtain ⟨hstaged, htorn⟩ := hok
    have hst : s.staged p = [] := (h.staged htorn).trans hstaged
    have hst' : s'.staged p = [] := (heff.staged_self rfl fun _ ho => Op.noConfusion ho).trans hst
    rcases exec_lockUnpublishedEvent hst he with ⟨-, rfl | ⟨exc, rfl⟩⟩ | ⟨ev, -, rfl, hev⟩
    · exact .begin hst' nofun
    · exact .begin hst' nofun
    · refine .begin hst' fun ev' hev' => hdb _ ?_
      cases hev'
      rw [Db.event_id hev, hev]
      nofun
  | write st =>
    rcases exec_write_cases he with ⟨rfl, hst⟩ | ⟨hne, hst⟩
    · refine ⟨fun ht => ?_, h.untried, fun hr => (h.failure hr).mono rfl rfl, h.lost,
        fun ev hev => hdb _ (h.present ev hev)⟩
      rw [hst, h.staged ht]
    · have hsame : settling.next q (.write st) r = q := by
        cases r with
        | error e => rfl
        | ok done => cases done with
          | true => exact absurd rfl hne
          | false => rfl
      rw [hsame]
      exact hplain q hst rfl rfl rfl rfl .inl .inl (.inr rfl)
  | commit => exact h.commit hok hdb he
  | rollback => exact h.leave (by rw [exec_rollback he]; exact Shared.staged_release_self) hdb (.inr rfl)
  | aexit raised => exact h.leave (exec_aexit he) hdb (.inl rfl)
  | selectJobForUpdate j owner =>
    have hst := heff.staged_self rfl fun _ ho => Op.noConfusion ho
    cases r with
    | error e => exact hplain _ hst rfl rfl rfl rfl .inl .inl (.inr rfl)
    | ok found => cases found with
      | none => exact hplain _ hst rfl rfl rfl rfl .inl .inl (.inr rfl)
      | some job =>
        refine hplain _ hst rfl rfl rfl rfl .inl (fun hr => ?_) (.inr rfl)
        rcases Bool.or_eq_true _ _ ▸ hr with hr | hr
        · exact .inl hr
        · exact .inr ⟨hok.1, Processing.event_of_isInvalid (Bool.and_eq_true _ _ ▸ hr).2⟩
  | publishDispatch m =>
    have hst := heff.staged_self rfl fun _ ho => Op.noConfusion ho
    obtain ⟨hclosed, -, ev, hev, -⟩ := hok
    cases r with
    | error e => exact hplain _ hst rfl rfl rfl rfl .inl (fun _ =>
        .inr ⟨hclosed, ev, hev⟩) (.inr rfl)
    | ok a => exact hplain _ hst rfl rfl rfl rfl (fun _ => .inr hclosed) .inl (.inr rfl)
  | now =>
    have hst := heff.staged_self rfl fun _ ho => Op.noConfusion ho
    cases r with
    | error e => exact hplain _ hst rfl rfl rfl rfl .inl .inl (.inr rfl)
    | ok t =>
      refine hplain _ hst rfl rfl rfl rfl .inl .inl ?_
      cases hfailed : q.failedAt with
      | none => exact .inl rfl
      | some t' => exact .inr (by simp [hfailed])
  | _ =>
    have hst := heff.staged_self rfl fun _ ho => Op.noConfusion ho
    exact hplain _ hst rfl rfl rfl rfl .inl .inl (.inr rfl)

/-- The answers are among those the text of the publisher was checked for. -/
theorem Accounted.may {r : Except Exc o.Ret} (h : Accounted s p q l) (hok : settling.ok q o)
    (he : s.exec P.reads p o ch = some (r, s')) : settling.may q o r := by
  cases o with
  | lockUnpublishedEvent e =>
    have hst : s.staged p = [] := (h.staged hok.2).trans hok.1
    rcases exec_lockUnpublishedEvent hst he with ⟨-, rfl | ⟨exc, rfl⟩⟩ | ⟨ev, -, rfl, hev⟩
    · trivial
    · trivial
    · exact Db.event_id hev
  | selectJobForUpdate j owner =>
    cases r with
    | error e => trivial
    | ok found => cases found with
      | none => trivial
      | some job => exact exec_selectJobForUpdate he
  | write st => cases st with
    | updateEvent e est => cases est with
      | markPublished now => cases r with
        | error exc => trivial
        | ok done =>
          rintro ⟨ev, hev, rfl⟩
          exact exec_markPublished (h.present ev hev) he
      | recordPublishFailure => trivial
    | _ => trivial
  | _ => trivial

/-! ## Along a run -/

/-- What a transaction has staged is its own. -/
theorem step_other {mv : Move (machine P)} (hs : (machine P).step mv w = some w')
    (hp : mv.pid ≠ some p) : w'.shared.staged p = w.shared.staged p ∧
      ∀ e, w.shared.core.db.event e ≠ none → w'.shared.core.db.event e ≠ none := by
  have hne : ∀ {r : Pid}, some r ≠ some p → p ≠ r := fun hr heq => hr (congrArg some heq.symm)
  rcases Machine.step_cases hs with ⟨r, c, s, rfl, -, hst, rfl⟩ |
    ⟨r, ch, c, o, k, a, s, rfl, -, he, rfl⟩ |
    ⟨r, c, prog, rfl, -, rfl⟩ | ⟨e, s, rfl, he, rfl⟩
  · simp only [Shared.start] at hst
    split at hst
    · cases hst
      exact ⟨Shared.staged_release_of_ne (hne hp), fun _ he => he⟩
    · cases hst
  · exact ⟨(exec_effect he).staged_other (hne hp), fun e hev => (exec_effect he).event_stays hev⟩
  · exact ⟨Shared.staged_release_of_ne (hne hp), fun _ he => he⟩
  · obtain ⟨c', hc', rfl⟩ := Option.map_eq_some_iff.mp he
    refine ⟨rfl, fun e' hev => ?_⟩
    rw [Db.event, show c'.db.outbox = _ from (Core.env_cases hc').2.1]
    exact hev

/-- No transaction but a publisher's queues a job, and the notes about the publishers fit. -/
structure Settling (w : World (machine P)) (σ : Pid → Processing) (L : Pid → Ledger) : Prop where
  follows : settling.Follows Call.isPublisher w σ
  abstains : ∀ p c prog, w.procs p = some (c, prog) → ¬ c.isPublisher → Abstains prog
  queues : ∀ p c prog, w.procs p = some (c, prog) → ¬ c.isPublisher →
    ∀ j now, .updateJob j (.markQueued now) ∉ w.shared.staged p
  accounted : ∀ p c prog, w.procs p = some (c, prog) → c.isPublisher →
    Accounted w.shared p (σ p) (L p)

theorem Settling.step {mv : Move (machine P)} (h : Settling w σ L)
    (hs : (machine P).step mv w = some w') :
    Settling w' (settling.track {} w mv w' σ) (ledger w mv w' L) where
  follows := by
    refine h.follows.step (fun c hc => ?_) hs fun p ch c o k r s _ hp hc he => ?_
    · obtain ⟨settings, rfl⟩ := hc
      refine .bind ((OutboxPublisher.publishDueBatchOnce_settles settings).mono fun r q _ => ?_)
      cases r <;> trivial
    · exact (h.accounted p c _ hp hc).may (h.follows.ok hp hc) he
  abstains := Machine.step_asks (fun _ => Call.prog_abstains P) h.abstains hs
  queues q c prog hq hc j now hmem := by
    by_cases hpid : mv.pid = some q
    · rcases Machine.step_cases hs with ⟨p, c', s, rfl, -, hst, rfl⟩ |
        ⟨p, ch, c', o, k, r, s, rfl, hp, he, rfl⟩ | ⟨p, c', prog', rfl, -, rfl⟩ |
        ⟨e, s, rfl, -, rfl⟩
      · cases hpid
        rw [start_staged hst] at hmem
        cases hmem
      · cases hpid
        simp only [Function.update_self, Option.some.injEq, Prod.mk.injEq] at hq
        obtain ⟨rfl, -⟩ := hq
        rcases (exec_effect he).staged_cases with heq | heq | ⟨st, rfl, heq⟩
        · exact h.queues q c' _ hp hc j now (heq ▸ hmem)
        · rw [heq] at hmem
          cases hmem
        · rw [heq] at hmem
          rcases List.mem_append.mp hmem with hmem | hmem
          · exact h.queues q c' _ hp hc j now hmem
          · have hnot := (h.abstains q c' _ hp hc).1
            rw [← List.mem_singleton.mp hmem] at hnot
            cases hnot
      · cases hpid
        rw [show (w.shared.release q).staged q = [] from Shared.staged_release_self] at hmem
        cases hmem
      · cases hpid
    · rw [Machine.step_procs_other hs hpid] at hq
      rw [(step_other hs hpid).1] at hmem
      exact h.queues q c prog hq hc j now hmem
  accounted q c prog hq hc := by
    by_cases hpid : mv.pid = some q
    · rcases Machine.step_cases hs with ⟨p, c', s, rfl, -, hst, rfl⟩ |
        ⟨p, ch, c', o, k, r, s, rfl, hp, he, rfl⟩ | ⟨p, c', prog', rfl, -, rfl⟩ |
        ⟨e, s, rfl, -, rfl⟩
      · cases hpid
        rw [show settling.track {} w (.start q c') _ σ q = {} from Function.update_self ..,
          show ledger w (.start q c') _ L q = {} from Function.update_self ..]
        exact .begin (start_staged hst) nofun
      · cases hpid
        simp only [Function.update_self, Option.some.injEq, Prod.mk.injEq] at hq
        obtain ⟨rfl, rfl⟩ := hq
        rw [Discipline.track_run hp he, ledger_run hp, Function.update_self, Function.update_self]
        exact (h.accounted q c' _ hp hc).own (h.follows.ok hp hc) he
      · cases hpid
        rw [show settling.track {} w (.crash q) _ σ q = {} from Function.update_self ..,
          show ledger w (.crash q) _ L q = {} from Function.update_self ..]
        exact .begin Shared.staged_release_self nofun
      · cases hpid
    · rw [Machine.step_procs_other hs hpid] at hq
      rw [Discipline.track_other hpid, ledger_other hpid]
      obtain ⟨hst, hdb⟩ := step_other hs hpid
      exact (h.accounted q c prog hq hc).keep hst hdb rfl rfl rfl rfl .inl .inl (.inr rfl)

/-! ## What a commit does to the rows -/

/-- Only `mark_queued` queues a job that is pending. -/
theorem applyAll_pending {db : Db} {j : Uuid} {row row' : Job} {stmts : List Stmt}
    (hno : ∀ now, .updateJob j (.markQueued now) ∉ stmts) (hrow : db.job j = some row)
    (hp : row.status = .pending) (hrow' : (db.applyAll stmts).job j = some row') :
    row'.status ≠ .queued := by
  have hkeep : ∃ row, (db.applyAll stmts).job j = some row ∧ row.status ≠ .queued ∧
      row.status ≠ .running := by
    refine Db.applyAll_keeps (R := fun db => ∃ row, db.job j = some row ∧ row.status ≠ .queued ∧
      row.status ≠ .running) (fun st hst db hdb => ?_) ⟨row,
      hrow, by rw [hp]; decide, by rw [hp]; decide⟩
    obtain ⟨row, hrow, hq, hr⟩ := hdb
    cases st with
    | insertJob job =>
      by_cases hid : j = job.id
      · rw [insertJob_of_isSome (by rw [← hid, hrow]; exact Option.some_ne_none _)]
        exact ⟨row, hrow, hq, hr⟩
      · rw [job_insertJob_of_ne hid]
        exact ⟨row, hrow, hq, hr⟩
    | updateJob id jst =>
      rw [job_updateJob]
      split
      · rename_i hid
        subst hid
        rw [hrow]
        refine ⟨_, rfl, ?_⟩
        unfold JobUpdate.run
        split
        · rename_i hg
          cases jst with
          | markQueued now => exact absurd hst (hno now)
          | markRunning => exact absurd (by simpa [JobStmt.update, markRunning] using hg) hq
          | requeueRunning =>
            simp only [JobStmt.update, requeueRunning, whileRunningAs, Bool.and_eq_true,
              beq_iff_eq] at hg
            exact absurd hg.1 hr
          | requestRunningCancellation => exact ⟨hq, hr⟩
          | _ => exact ⟨fun heq => (by cases heq), fun heq => by cases heq⟩
        · exact ⟨hq, hr⟩
      · exact ⟨row, hrow, hq, hr⟩
    | _ => exact ⟨row, hrow, hq, hr⟩
  obtain ⟨row'', hrow'', hq, -⟩ := hkeep
  rw [hrow'] at hrow''
  cases hrow''
  exact hq

/-- The tables before and after a processing that failed: only the event in hand is changed, only if
it is unpublished, and only in the four columns of a recorded failure. -/
structure OnlyRecordsFailure (failedAt : Option Datetime) (e : Uuid) (db db' : Db) : Prop where
  jobs : db'.jobs = db.jobs
  logs : db'.logs = db.logs
  others : ∀ e' ≠ e, db'.event e' = db.event e'
  event : ∀ ev, db.event e = some ev → db'.event e = some ev ∨
    (ev.publishedAt = none ∧ ∃ error t next now, error.length ≤ MAX_OUTBOX_ERROR_LENGTH ∧
      failedAt = some t ∧ t + seconds 1 ≤ next ∧ next ≤ t + seconds MAX_OUTBOX_BACKOFF_SECONDS ∧
      db'.event e = some { ev with
        publishAttempts := ev.publishAttempts + 1
        lastError := some error
        availableAt := next
        updatedAt := now })

theorem Processing.RecordsFailure.only {stmts : List Stmt} (h : q.RecordsFailure stmts) :
    ∃ ev, q.event = some ev ∧ ∀ db : Db, OnlyRecordsFailure q.failedAt ev.id db
    (db.applyAll stmts) := by
  cases h with
  | nothing hev => exact ⟨_, hev, fun db => ⟨rfl, rfl, fun _ _ => rfl, fun _ h => .inl h⟩⟩
  | @recorded ev error t next now hev herror ht hlow hhigh =>
    refine ⟨ev, hev, fun db => ⟨rfl, rfl, fun e' he' => ?_, fun ev' hev' => ?_⟩⟩
    · rw [Db.applyAll_cons, Db.applyAll_nil, event_updateEvent, if_neg he']
    · rw [Db.applyAll_cons, Db.applyAll_nil, event_updateEvent, if_pos rfl, hev']
      cases hp : ev'.publishedAt with
      | none =>
        refine .inr ⟨rfl, error, t, next, now, herror, ht, hlow, hhigh, ?_⟩
        simp [EventStmt.update, recordPublishFailure, EventUpdate.run, hp]
      | some t' =>
        refine .inl ?_
        simp [EventStmt.update, recordPublishFailure, EventUpdate.run, hp]

/-- A step that changes a table row is a commit with effect. -/
theorem step_commits {mv : Move (machine P)} (hs : (machine P).step mv w = some w') :
    (w'.shared.core.db.jobs = w.shared.core.db.jobs) ∨
    ∃ p ch c k, mv = .run p ch ∧ w.procs p = some (c, .call .commit k) ∧
      w'.shared.core.db = w.shared.core.db.applyAll (w.shared.staged p) := by
  rcases Machine.step_cases hs with ⟨p, c, s, rfl, -, hst, rfl⟩ |
    ⟨p, ch, c, o, k, r, s, rfl, hp, he, rfl⟩ |
    ⟨p, c, prog, rfl, -, rfl⟩ | ⟨e, s, rfl, he, rfl⟩
  · simp only [Shared.start] at hst
    split at hst
    · cases hst
      exact .inl rfl
    · cases hst
  · have hdb := exec_ledger he
    cases o with
    | commit => cases ch with
      | fails text => exact .inl (congrArg Db.jobs hdb)
      | _ => exact .inr ⟨p, _, c, k, rfl, hp, hdb⟩
    | _ => exact .inl (congrArg Db.jobs hdb)
  · exact .inl rfl
  · obtain ⟨c', hc', rfl⟩ := Option.map_eq_some_iff.mp he
    exact .inl (Core.env_cases hc').1

/-- **A publish is confirmed, or undone.** From any database and in any interleaving: a job is
queued only by the commit of a publisher that has an event of the job in hand, whose publish has
returned in that transaction, and together with the event's `published_at`; after the validation or
a publish has raised, the processing has committed nothing, or the record of the failure; and after
a publish whose commit failed, it has committed nothing. -/
theorem publish_is_confirmed_or_undone {ok : World (machine P) → Move (machine P) → Prop}
    {w₀ : World (machine P)} (hstart : ∀ p, w₀.procs p = none)
    (h : (machine P).ObservedBy ok (Machine.both (settling.track {}) ledger) w₀
      (fun _ => {}, fun _ => {}) w (σ, L)) :
    (∀ mv w' j row row', (machine P).step mv w = some w' → w.shared.core.db.job j = some row →
      row.status = .pending → w'.shared.core.db.job j = some row' → row'.status = .queued →
      ∃ p ch c k ev m now now', mv = .run p ch ∧ w.procs p = some (c, .call .commit k) ∧
      c.isPublisher ∧
        (σ p).event = some ev ∧ ev.aggregateId = j ∧ modelValidate ev.payload = .ok m ∧
        m ∈ (σ p).confirmed ∧
        w'.shared.core.db = w.shared.core.db.applyAll
          [.updateJob j (.markQueued now), .updateEvent ev.id (.markPublished now')] ∧
        (w'.shared.core.db.event ev.id).map OutboxEvent.publishedAt = some (some now')) ∧
    (∀ p c prog, w.procs p = some (c, prog) → c.isPublisher → (σ p).raised = true →
      ∃ ev, (σ p).event = some ev ∧
        ∀ db : Db, OnlyRecordsFailure (σ p).failedAt ev.id db (db.applyAll (L p).done)) ∧
    ∀ p c prog, w.procs p = some (c, prog) → c.isPublisher → (σ p).sent = true →
      (L p).commitFailed = true → (L p).done = [] := by
  have hset : Settling w σ L := h.invariant (I := fun w g => Settling w g.1 g.2)
    ⟨fun p c prog hp => absurd hp (by rw [hstart p]; nofun),
      fun p c prog hp => absurd hp (by rw [hstart p]; nofun),
      fun p c prog hp => absurd hp (by rw [hstart p]; nofun),
      fun p c prog hp => absurd hp (by rw [hstart p]; nofun)⟩ fun _ _ _ _ hi _ hs => hi.step hs
  refine ⟨fun mv w' j row row' hs hrow hp hrow' hq => ?_,
    fun p c prog hp hc hr => ((hset.accounted p c prog hp hc).failure hr).only,
    fun p c prog hp hc => (hset.accounted p c prog hp hc).lost⟩
  rcases step_commits hs with hjobs | ⟨p, ch, c, k, rfl, hproc, hdb⟩
  · rw [Db.job, hjobs] at hrow'
    cases (show some row = some row' from hrow.symm.trans hrow')
    rw [hp] at hq
    cases hq
  · -- some statement of the transaction has queued the job, so the transaction is a publisher's
    have hmem : ∃ now, .updateJob j (.markQueued now) ∈ w.shared.staged p := by
      by_contra hno
      rw [hdb] at hrow'
      exact applyAll_pending (fun now hmem => hno ⟨now, hmem⟩) hrow hp hrow' hq
    obtain ⟨now, hmem⟩ := hmem
    have hc : c.isPublisher := by
      by_contra hc
      exact hset.queues p c _ hproc hc j now hmem
    have hacc := hset.accounted p c _ hproc hc
    obtain ⟨htorn, -, -, hconfirms⟩ := hset.follows.ok hproc hc
    rw [hacc.staged htorn] at hmem hdb
    obtain ⟨ev, m, now', hev, hj, hm, hconf, hst⟩ := hconfirms j now hmem
    rw [hst] at hdb
    refine ⟨p, ch, c, k, ev, m, now, now', rfl, hproc, hc, hev, hj, hm, hconf, hdb, ?_⟩
    obtain ⟨ev', hev'⟩ := Option.ne_none_iff_exists'.mp (hacc.present ev hev)
    rw [hdb, Db.applyAll_cons, Db.applyAll_cons, Db.applyAll_nil, event_updateEvent, if_pos rfl,
      event_updateJob, hev']
    simp [EventStmt.update, markPublished, EventUpdate.run]

/-- The dispatch event of a new job is in hand, and its job is about to be marked. -/
def stagedMoves : List (Move (machine P)) :=
  [.env (.register 1)] ++ createMoves 0 1 10 11 "k" .success 0 ++
    [.start 1 (.publishDueBatchOnce {}), .run 1 (.time 0)] ++ answers 1
    6 ++ [.run 1 (.time 0)] ++ answers 1 1

/-- The publish raises, and the failure is recorded. -/
def failedPublishMoves : List (Move (machine P)) :=
  stagedMoves ++ [.run 1 (.fails "broker down")] ++ answers 1 1 ++ [.run 1 (.time 0)] ++
    answers 1 1 ++
    [.run 1 (.time 0)] ++ answers 1 2

/-- The publish returns, and the commit is about to be made. -/
def confirmedPublishMoves : List (Move (machine P)) :=
  stagedMoves ++ answers 1 1 ++ [.run 1 (.time 0)] ++ answers 1 1

/-- In the first run below the publish fails and its record is committed; in the second it is
confirmed, and the commit queues the job. -/
theorem publish_is_confirmed_or_undone_runs :
    (∃ (σ : Pid → Processing) (L : Pid → Ledger),
      (σ 1).raised = true ∧ (L 1).done.length = 1 ∧ ∃ ev, (σ 1).event = some ev ∧
        ∀ db : Db, OnlyRecordsFailure (σ 1).failedAt ev.id db (db.applyAll (L 1).done)) ∧
    ∃ (w w' : World (machine .default)) (σ : Pid → Processing),
      (machine .default).step (.run 1 .answer) w = some w' ∧
      ∃ p ev m now now', (σ p).event = some ev ∧ ev.aggregateId = 10 ∧
      modelValidate ev.payload = .ok m ∧
        m ∈ (σ p).confirmed ∧ w'.shared.core.db = w.shared.core.db.applyAll
          [.updateJob 10 (.markQueued now), .updateEvent ev.id (.markPublished now')] := by
  constructor
  · have hrun : ((machine .default).observe (Machine.both (settling.track {}) ledger)
      failedPublishMoves
        (World.init .default) (fun _ => {}, fun _ => {})).map (fun x => ((x.2.1 1).raised,
          (x.2.2 1).done.length, (x.1.procs 1).map fun y => match y.1 with
            | .publishDueBatchOnce _ => true
            | _ => false)) = some (true, 1, some true) := by
      decide +kernel
    simp only [Option.map_eq_some_iff, Prod.mk.injEq] at hrun
    obtain ⟨⟨w, σ, L⟩, hw, hraised, hdone, ⟨c, prog⟩, hp, hc⟩ := hrun
    have hpub : c.isPublisher := by
      cases c with
      | publishDueBatchOnce settings => exact ⟨settings, rfl⟩
      | _ => cases hc
    have hobserved : (machine .default).ObservedBy (fun _ _ =>
      True) (Machine.both (settling.track {}) ledger)
        (World.init .default) (fun _ => {}, fun _ => {}) w (σ, L) :=
        .of_observe (fun _ _ => trivial) hw
    obtain ⟨-, hfailed, -⟩ := publish_is_confirmed_or_undone (fun _ => rfl) hobserved
    exact ⟨σ, L, hraised, hdone, hfailed 1 c prog hp hpub hraised⟩
  · have hrun : ((machine .default).observe (Machine.both (settling.track {}) ledger)
      confirmedPublishMoves
        (World.init .default) (fun _ => {}, fun _ => {})).map (fun x =>
          ((x.1.shared.core.db.job 10).map Job.status,
            ((machine .default).step (.run 1 .answer) x.1).map fun w' =>
              (w'.shared.core.db.job 10).map Job.status)) =
        some (some .pending, some (some .queued)) := by
      decide +kernel
    simp only [Option.map_eq_some_iff, Prod.mk.injEq] at hrun
    obtain ⟨⟨w, σ, L⟩, hw, ⟨row, hrow, hp⟩, w', hs, row', hrow', hq⟩ := hrun
    have hobserved : (machine .default).ObservedBy (fun _ _ =>
      True) (Machine.both (settling.track {}) ledger)
        (World.init .default) (fun _ => {}, fun _ => {}) w (σ, L) :=
        .of_observe (fun _ _ => trivial) hw
    obtain ⟨hqueued, -, -⟩ := publish_is_confirmed_or_undone (fun _ => rfl) hobserved
    obtain ⟨p, ch, c, k, ev, m, now, now', -, -, -, hev, hj, hm, hconf, hdb, -⟩ :=
      hqueued _ w' 10 row row' hs hrow hp hrow' hq
    exact ⟨w, w', σ, hs, p, ev, m, now, now', hev, hj, hm, hconf, hdb⟩

end CloudJob
