import CloudJob.Callers
import CloudJob.Contract.Staged
import CloudJob.System
import CloudJob.Text

/-!
# `Safety/Atomicity.lean` — all or nothing

An operation commits once, when everything it has to write is written, and whatever raises before
leaves the database as it was. What raises afterwards changes nothing either: all that is left then
is to tell. So a run of an operation in which something raised ends with the rows it began with, or
with those of the run that goes on where this one broke off.

The programs are read once, as an automaton: `atomic` says what may still be called when nothing has
happened, when something has raised, and when the transaction is committed.
-/

set_option autoImplicit false

namespace CloudJob

open Lib

/-! ## The text -/

/-- An invalidation or a publication. -/
def Op.notifies : Op → Bool
  | .redisInvalidate _ | .redisPublish _ => true
  | _ => false

/-- The exceptions of a notification are dropped where it is made; those of any other call count. -/
def Op.disturbs (o : Op) : Bool := !o.notifies

/-- What is still called once the transaction is committed; nothing of it waits, or depends on a
choice. -/
def Op.isClosing : Op → Bool
  | .aenter | .aexit _ | .selectJob _ _ | .redisInvalidate _ | .redisPublish _ => true
  | _ => false

inductive Phase where
  | untouched
  /-- A call has raised, and nothing is committed. -/
  | broken
  | committed
  /-- A call has raised after the commit. -/
  | interrupted
deriving DecidableEq

def Phase.isOver : Phase → Bool
  | .untouched | .broken => false
  | .committed | .interrupted => true

def Phase.fault : Phase → Phase
  | .untouched => .broken
  | .committed => .interrupted
  | q => q

def Op.commits : Op → Bool
  | .commit => true
  | _ => false

/-- `message.ack()`. -/
def Op.acks : Op → Bool
  | .ack _ => true
  | _ => false

/-- Who has not committed tells nobody, and commits only if nothing has raised. -/
def Phase.allows : Phase → Op → Bool
  | .untouched, o => !o.notifies && !o.acks
  | .broken, o => !o.notifies && !o.acks && !o.commits
  | .committed, o => o.isClosing
  | .interrupted, o => o.isClosing

@[reducible] def atomic : Discipline sig where
  State := Phase
  ok q o := q.allows o = true
  may _ _ _ := True
  next q o r := match r with
    | .ok _ => if o.commits then .committed else q
    | .error _ => if o.disturbs then q.fault else q

/-- A part that returns has not been disturbed. -/
def Undamaged {α : Type} (r : Except Exc α) (q : Phase) : Prop :=
  ∀ a, r = .ok a → q = .untouched ∨ q = .committed

theorem Phase.allows_aenter (q : Phase) : q.allows .aenter = true := by cases q <;> rfl

theorem Phase.allows_aexit (q : Phase) (raised : Bool) :
    q.allows (.aexit raised) = true := by cases q <;> rfl

section Text

variable {α β : Type} {q : Phase}

theorem undamaged_error (e : Exc) (q : Phase) : Undamaged (.error e : Except Exc α) q :=
  fun _ h => by cases h

/-- An exception before the commit is all right. -/
def Raises (R : Except Exc α → Phase → Prop) : Prop := ∀ e q, q.isOver = false → R (.error e) q

theorem undamaged_raises : Raises (Undamaged (α := α)) := fun e q _ => undamaged_error e q

theorem Phase.isOver_fault (o : Op) :
    (if o.disturbs then Phase.untouched.fault else Phase.untouched).isOver = false := by
  split <;> rfl

theorem atomic_withUow {body : Code α} {R : Except Exc α → Phase → Prop}
    (hbody : atomic.Obeys body R q)
    (hR : ∀ e q', R (.error e) q') : atomic.Obeys (withUow body) R q := by
  refine obeys_withUow q.allows_aenter (fun _ => hbody.mono fun r q' hr => ?_) fun e _ => hR e _
  cases r with
  | ok a => exact .perform (q'.allows_aexit false) (fun _ _ => hr) fun e _ => hR e _
  | error e => exact .perform (q'.allows_aexit true) (fun _ _ => hR e _) fun e _ => hR e _

/-- A call before the commit. -/
theorem atomic_call {o : Op} {f : o.Ret → Code β} {R : Except Exc β → Phase → Prop}
    (ho : Phase.untouched.allows o = true) (hc : o.commits = false)
    (hf : ∀ a, atomic.Obeys (f a) R .untouched) (hR : Raises R) :
    atomic.Obeys ((call o).bind f) R .untouched := by
  refine .perform ho (fun a _ => ?_) fun e _ => hR e _ (Phase.isOver_fault o)
  show atomic.Obeys (f a) R (if o.commits then _ else _)
  rw [hc]
  exact hf a

/-- The commit. -/
theorem atomic_commit {f : Unit → Code β} {R : Except Exc β → Phase → Prop}
    (hf : atomic.Obeys (f ()) R .committed) (hR : Raises R) :
    atomic.Obeys (CloudJob.commit.bind f) R .untouched :=
  .perform rfl (fun _ _ => hf) fun e _ => hR e _ rfl

/-- What only tells Redis, once the transaction is committed. -/
theorem atomic_told {m : Code α} (h : m.Asks fun o : Op => o.notifies = true) :
    atomic.Obeys m (fun _ q' => q' = Phase.committed) .committed := by
  refine Discipline.Obeys.of_asks (D := atomic) (I := fun q' => q' = Phase.committed)
    (h.mono fun o ho q' hq' => ?_) (Eq.refl Phase.committed)
  rw [hq']
  cases o with
  | redisInvalidate owner => exact ⟨rfl, fun r => by cases r <;> rfl⟩
  | redisPublish ev => exact ⟨rfl, fun r => by cases r <;> rfl⟩
  | _ => cases ho

theorem invalidateOwner_notifies (owner : Uuid) :
    (invalidateOwner owner).Asks fun o : Op => o.notifies = true :=
  .tryCatch (.perform rfl) fun _ => trivial

theorem notify_notifies (n : JobPostCommitNotification) :
    (Prog.tryCatch (notifyJobStateChanged n) fun _ => .ret ()).Asks fun o : Op =>
    o.notifies = true := by
  refine .tryCatch ((notes_notifyJobStateChanged n).mono fun o ho => ?_) fun _ => trivial
  obtain ⟨owner, rfl⟩ | ⟨ev, rfl⟩ := ho
  · rfl
  · rfl

theorem atomic_createSystemLog {f : Unit → Code β} {R : Except Exc β → Phase → Prop} (j : Uuid)
    (level message : String) (hf : atomic.Obeys (f ()) R .untouched) (hR : Raises R) :
    atomic.Obeys ((JobLogs.createSystemLog j level message).bind f) R .untouched := by
  unfold JobLogs.createSystemLog
  simp only [Prog.bind_eq, Prog.pure_eq, utcNow, Prog.bind_assoc, Prog.ret_bind]
  exact atomic_call rfl rfl (fun _ => atomic_call rfl rfl (fun _ => hf) hR) hR

theorem atomic_createDispatchEvent {f : OutboxEvent → Code β}
    {R : Except Exc β → Phase → Prop} (j : Uuid)
    (at' : Datetime) (hf : ∀ ev, atomic.Obeys (f ev) R .untouched) (hR : Raises R) :
    atomic.Obeys ((Outbox.createDispatchEvent j at').bind f) R .untouched := by
  unfold Outbox.createDispatchEvent
  simp only [Prog.bind_eq, Prog.pure_eq, utcNow, uuid4, Prog.bind_assoc, Prog.ret_bind]
  exact atomic_call rfl rfl (fun _ => atomic_call rfl rfl (fun _ => atomic_call rfl rfl
    (fun _ => hf _) hR) hR) hR

theorem atomic_createDispatchEventIfAbsent {f : Option OutboxEvent → Code β}
    {R : Except Exc β → Phase → Prop} (j : Uuid) (at' : Datetime)
    (hf : ∀ ev, atomic.Obeys (f ev) R .untouched) (hR : Raises R) :
    atomic.Obeys ((Outbox.createDispatchEventIfAbsent j at').bind f) R .untouched := by
  unfold Outbox.createDispatchEventIfAbsent
  simp only [Prog.bind_eq, Prog.bind_assoc]
  refine atomic_call rfl rfl (fun existing => ?_) hR
  cases existing with
  | some e => exact hf none
  | none =>
    simp only [Prog.bind_assoc]
    exact atomic_createDispatchEvent j at' (fun ev => hf (some ev)) hR

/-- How every part with a statement on a job row goes on. -/
theorem atomic_update {j : Uuid} {st : JobStmt} {m m' : Code β} {R : Except Exc β → Phase → Prop}
    (hm : atomic.Obeys m R .untouched) (hm' : atomic.Obeys m' R .untouched) (hR : Raises R) :
    atomic.Obeys ((Jobs.update j st).bind fun done => if done then m else m') R .untouched := by
  refine atomic_call rfl rfl (fun done => ?_) hR
  cases done with
  | true => exact hm
  | false => exact hm'

/-- A log, the commit, and the notification. -/
theorem atomic_report {n : JobPostCommitNotification} (j : Uuid) (level message : String) :
    atomic.Obeys ((JobLogs.createSystemLog j level message).bind fun _ =>
      CloudJob.commit.bind fun _ =>
      Prog.tryCatch (notifyJobStateChanged n) fun _ => .ret ()) Undamaged .untouched :=
  atomic_createSystemLog j level message (atomic_commit ((atomic_told (notify_notifies n)).mono
    fun _ _ hq _ _ => .inr hq) undamaged_raises) undamaged_raises

end Text

namespace JobService

/-- A job that is there is looked up, and nothing is written. -/
theorem lookup_atomic {α : Type} {o : Op} {f : o.Ret → Code α} {q : Phase} (ho : q.allows o = true)
    (hc : o.commits = false) (hf : ∀ a, (∃ b, f a = .ret b) ∨ ∃ e, f a = .raise e) :
    atomic.Obeys (withUow ((call o).bind f)) (fun r q' => ∀ a, r = .ok a → q' = q) q := by
  refine atomic_withUow (.perform ho (fun a _ => ?_) fun e _ a h => by cases h)
    fun e q' a h => by cases h
  have hnext : (atomic.next q o (.ok a) : Phase) = q := by
    show (if o.commits then Phase.committed else q) = q
    rw [hc]
    rfl
  rw [hnext]
  obtain ⟨b, hb⟩ | ⟨e, he⟩ := hf a
  · rw [hb]
    exact fun _ _ => rfl
  · rw [he]
    exact fun _ h => by cases h

theorem loadExistingJob_atomic (owner : Uuid) (key hash : String) {q : Phase}
    (hq : q.isOver = false) :
    atomic.Obeys (loadExistingJob owner key hash) (fun r q' => ∀ a, r = .ok a → q' = q) q := by
  unfold loadExistingJob Jobs.getByIdempotencyKey
  simp only [Prog.bind_eq, Prog.pure_eq, Prog.bind_assoc, Prog.ret_bind]
  refine lookup_atomic ?_ rfl fun found => ?_
  · cases q with
    | untouched => rfl
    | broken => rfl
    | committed => cases hq
    | interrupted => cases hq
  · cases found with
    | none => exact .inr ⟨_, rfl⟩
    | some row =>
      by_cases hhash : (toStoredJobDto row).requestHash ≠ hash
      · exact .inr ⟨_, if_pos hhash⟩
      · exact .inl ⟨_, if_neg hhash⟩

theorem loadExistingJobById_atomic (j : Uuid) :
    atomic.Obeys (loadExistingJobById j) (fun r q' => ∀ a, r = .ok a → q' = Phase.committed)
    .committed := by
  unfold loadExistingJobById Jobs.getById
  simp only [Prog.bind_eq, Prog.pure_eq, Prog.bind_assoc, Prog.ret_bind]
  refine lookup_atomic rfl rfl fun found => ?_
  cases found with
  | none => exact .inr ⟨_, rfl⟩
  | some row => exact .inl ⟨_, rfl⟩

/-- The transaction is committed, or something has raised and it is not. -/
def Inserting {α : Type} : Except Exc α → Phase → Prop
  | .ok _, q => q = .committed
  | .error _, q => q.isOver = false

/-- If the request goes on to look for a job that was there first, nothing is committed. -/
def Unsettled : Except Exc (Option JobCreateResultDTO) → Phase → Prop
  | .ok r, q => r = none → q.isOver = false
  | .error _, _ => True

/-- The row, its log and its event are committed together, or something has raised and nothing
is. -/
theorem insertJob_atomic (settings : Settings) (user : CurrentUserDTO) (key : String)
    (type : JobType) (payload : Json) (hash : String) :
    atomic.Obeys (insertJob settings user key type payload hash) Inserting .untouched := by
  have hR : Raises (Inserting (α := StoredJobDTO)) := fun _ _ hq => hq
  unfold insertJob Jobs.createPendingJob JobLogs.createJobCreatedLog
  simp only [Prog.bind_eq, Prog.pure_eq, utcNow, uuid4, Prog.bind_assoc]
  refine atomic_call rfl rfl (fun id => atomic_call rfl rfl
    (fun t => atomic_call rfl rfl (fun t' => ?_) hR) hR) hR
  refine .bind (.bind (.attempt ⟨rfl, fun r _ => ?_⟩))
  cases r with
  | ok matched =>
    exact atomic_createSystemLog _ _ _ (atomic_call rfl rfl
      (fun at' => atomic_createDispatchEvent _ at'
      (fun ev => atomic_commit rfl hR) hR) hR) hR
  | error e =>
    cases e with
    | integrity orig =>
      show atomic.Obeys (if _ then _ else _ : Code Bool) _ Phase.broken
      split
      · exact Eq.refl false
      · exact Eq.refl false
    | _ => exact Eq.refl false

theorem createJob_atomic (sha256 : String → String) (settings : Settings) (user : CurrentUserDTO)
    (key : String) (type : JobType) (payload : Json) :
    atomic.Obeys (createJob sha256 settings user key type payload)
      (fun _ _ => True) .untouched := by
  have hrelease : ∀ (r : Option CreateJobRateLimitReservationDTO)
    {m : Code (Option JobCreateResultDTO)}
      {q : Phase}, q.isOver = false → atomic.Obeys m Unsettled q →
      atomic.Obeys ((releaseReservation r).bind fun _ => m) Unsettled q := fun r m q hq hm => by
    cases r with
    | none => exact hm
    | some r =>
      refine .perform (by cases q with
        | untouched => rfl
        | broken => rfl
        | committed => cases hq
        | interrupted => cases hq) (fun _ _ => hm) fun e _ => trivial
  unfold createJob
  simp only [Prog.bind_eq, Prog.pure_eq]
  refine .bind ((atomic_withUow (R := Unsettled) ?_ fun _ _ => trivial).mono fun r q hr => ?_)
  · unfold Jobs.getByIdempotencyKey
    simp only [Prog.bind_eq, Prog.pure_eq, Prog.bind_assoc, Prog.ret_bind]
    refine atomic_call rfl rfl (fun found => ?_) fun _ _ _ => trivial
    cases found with
    | some row =>
      show atomic.Obeys ((validateExistingJob _ _).bind _) _ _
      unfold validateExistingJob
      split
      · trivial
      · exact fun h => by cases h
    | none =>
      refine atomic_call rfl rfl (fun r => .bind (.attempt ((insertJob_atomic _ _ _ _ _ _).mono
        fun outcome q hq => ?_))) fun _ _ _ => trivial
      cases outcome with
      | ok job =>
        cases hq
        refine .bind ((atomic_told (invalidateOwner_notifies _)).mono fun r q' hq => ?_)
        cases r with
        | error e => trivial
        | ok done =>
          cases hq
          refine .bind ((atomic_told (notify_notifies _)).mono fun r q' hq => ?_)
          cases r with
          | error e => trivial
          | ok done => exact fun h => by cases h
      | error e =>
        have hover : q.isOver = false := hq
        cases e with
        | duplicateJobIdempotencyKey =>
          refine hrelease r hover (.perform ?_ (fun _ _ => fun _ => hover) fun e _ => trivial)
          cases q with
          | untouched => rfl
          | broken => rfl
          | committed => cases hover
          | interrupted => cases hover
        | _ => exact hrelease r hover trivial
  · cases r with
    | error e => trivial
    | ok result => cases result with
      | some result => trivial
      | none =>
        refine .bind ((loadExistingJob_atomic _ _ _ (hr rfl)).mono fun r q' _ => ?_)
        cases r <;> trivial

theorem finishCancel_atomic (job : StoredJobDTO) (message : String) :
    atomic.Obeys (finishCancel job message) Undamaged .untouched := by
  unfold finishCancel
  simp only [Prog.bind_eq, Prog.pure_eq]
  refine atomic_createSystemLog _ _ _ (atomic_commit (.bind ?_) undamaged_raises) undamaged_raises
  refine (atomic_told (invalidateOwner_notifies _)).mono fun r q' hq => ?_
  cases r with
  | error e => exact undamaged_error e q'
  | ok done =>
    cases hq
    refine .bind ((loadExistingJobById_atomic job.id).mono fun r q' hr => ?_)
    cases r with
    | error e => exact undamaged_error e q'
    | ok refreshed =>
      cases hr refreshed rfl
      refine .bind ((atomic_told (notify_notifies _)).mono fun r q' hq => ?_)
      cases r with
      | error e => exact undamaged_error e q'
      | ok done => exact fun _ _ => .inr hq

theorem loadAuthorizedJobForUpdate_atomic (user : CurrentUserDTO) (j : Uuid) {β : Type}
    {f : StoredJobDTO → Code β} (hf : ∀ job, atomic.Obeys (f job) Undamaged .untouched) :
    atomic.Obeys ((loadAuthorizedJobForUpdate user j).bind f) Undamaged .untouched := by
  unfold loadAuthorizedJobForUpdate Jobs.getByIdForUpdate Jobs.getByIdForOwnerForUpdate
  split
  · simp only [Prog.bind_eq, Prog.pure_eq, Prog.bind_assoc, Prog.ret_bind]
    refine atomic_call rfl rfl (fun found => ?_) undamaged_raises
    cases found with
    | none => exact undamaged_error _ _
    | some row => exact hf _
  · simp only [Prog.bind_eq, Prog.pure_eq, Prog.bind_assoc, Prog.ret_bind]
    refine atomic_call rfl rfl (fun found => ?_) undamaged_raises
    cases found with
    | none => exact undamaged_error _ _
    | some row => exact hf _

theorem cancelJob_atomic (user : CurrentUserDTO) (j : Uuid) :
    atomic.Obeys (cancelJob user j) Undamaged .untouched := by
  unfold cancelJob
  simp only [Prog.bind_eq, Prog.pure_eq]
  refine atomic_call rfl rfl (fun now => atomic_withUow (loadAuthorizedJobForUpdate_atomic user j
    fun job => ?_) undamaged_error) undamaged_raises
  have hret : ∀ a : JobPublicDTO, atomic.Obeys (.ret a) Undamaged .untouched :=
    fun a _ _ => .inl rfl
  split
  · exact atomic_update (finishCancel_atomic _ _) (hret _) undamaged_raises
  · split
    · exact atomic_update (finishCancel_atomic _ _) (hret _) undamaged_raises
    · split
      · exact undamaged_error _ _
      · exact hret _

end JobService

namespace JobWorker

/-- A return before the commit. -/
theorem untouched_ret {α : Type} (a : α) : atomic.Obeys (.ret a) Undamaged .untouched :=
    fun _ _ => .inl rfl

/-- What is done after a part that leaves the phase alone. -/
theorem atomic_then {α β : Type} {m : Code α} {f : α → Code β} {q : Phase}
    (hm : atomic.Obeys m Undamaged q)
    (hf : ∀ a, ∃ b, f a = .ret b) : atomic.Obeys (m.bind f) Undamaged q := by
  refine .bind (hm.mono fun r q' hr => ?_)
  cases r with
  | error e => exact undamaged_error e q'
  | ok a =>
    obtain ⟨b, hb⟩ := hf a
    show atomic.Obeys (f a) Undamaged q'
    rw [hb]
    exact fun _ _ => hr a rfl

theorem decideClaim_atomic (w : JobWorker) (owner : Uuid) (job : JobExecutionDTO) (token : Uuid)
    (now : Datetime) : atomic.Obeys (decideClaim w owner job token now) Undamaged .untouched := by
  unfold decideClaim
  simp only [Prog.bind_eq, Prog.pure_eq]
  split
  · exact untouched_ret _
  · split
    · exact untouched_ret _
    · split
      · exact untouched_ret _
      · split
        · exact atomic_then (atomic_update (atomic_report _ _ _) (untouched_ret _) undamaged_raises)
            fun _ => ⟨_, rfl⟩
        · refine atomic_call rfl rfl (fun n => ?_) undamaged_raises
          split
          · refine atomic_then ?_ fun _ => ⟨_, rfl⟩
            have hcommit : atomic.Obeys (CloudJob.commit.bind fun _ =>
                notifyPostCommit job.id job.ownerId .queued job.attemptCount now)
                    Undamaged .untouched :=
              atomic_commit ((atomic_told (notify_notifies _)).mono fun _ _ hq _ _ => .inr hq)
                undamaged_raises
            refine atomic_createDispatchEventIfAbsent _ _ (fun ev => ?_) undamaged_raises
            cases ev with
            | none => exact hcommit
            | some ev => exact atomic_createSystemLog _ _ _ hcommit undamaged_raises
          · refine atomic_update (atomic_createSystemLog _ _ _ (atomic_commit ?_ undamaged_raises)
              undamaged_raises) (untouched_ret _) undamaged_raises
            exact atomic_then ((atomic_told (notify_notifies _)).mono fun _ _ hq _ _ => .inr hq)
              fun _ => ⟨_, rfl⟩

theorem claimExecution_atomic (w : JobWorker) (m : DispatchOutboxMessage) :
    atomic.Obeys (claimExecution w m) Undamaged .untouched := by
  unfold claimExecution
  simp only [Prog.bind_eq]
  refine atomic_call rfl rfl (fun now => atomic_call rfl rfl
    (fun token => atomic_withUow ?_ undamaged_error)
    undamaged_raises) undamaged_raises
  unfold claimLocked Jobs.getOwnerId Users.lockById Jobs.getExecutionCandidateForUpdate
  simp only [Prog.bind_eq, Prog.pure_eq, Prog.bind_assoc, Prog.ret_bind]
  refine atomic_call rfl rfl (fun found => ?_) undamaged_raises
  cases found with
  | none => exact untouched_ret _
  | some row =>
    refine atomic_call rfl rfl (fun user => ?_) undamaged_raises
    cases user with
    | false => exact untouched_ret _
    | true =>
      refine atomic_call rfl rfl (fun found => ?_) undamaged_raises
      cases found with
      | none => exact untouched_ret _
      | some row => exact decideClaim_atomic _ _ _ _ _

theorem markCompleted_atomic (claim : ExecutionClaim) :
    atomic.Obeys (markCompleted claim) Undamaged .untouched :=
  atomic_call rfl rfl (fun _ => atomic_withUow
    (atomic_update (atomic_report _ _ _) (untouched_ret _)
    undamaged_raises) undamaged_error) undamaged_raises

theorem markCancelled_atomic (claim : ExecutionClaim) :
    atomic.Obeys (markCancelled claim) Undamaged .untouched :=
  atomic_call rfl rfl (fun _ => atomic_withUow
    (atomic_update (atomic_report _ _ _) (untouched_ret _)
    undamaged_raises) undamaged_error) undamaged_raises

theorem markFailed_atomic (claim : ExecutionClaim) (error : String) :
    atomic.Obeys (markFailed claim error) Undamaged .untouched :=
  atomic_call rfl rfl (fun _ => atomic_withUow
    (atomic_update (atomic_report _ _ _) (untouched_ret _)
    undamaged_raises) undamaged_error) undamaged_raises

theorem scheduleRetry_atomic (claim : ExecutionClaim) (error : String) :
    atomic.Obeys (scheduleRetry claim error) Undamaged .untouched := by
  unfold scheduleRetry
  simp only [Prog.bind_eq, Prog.pure_eq]
  refine atomic_call rfl rfl (fun now => ?_) undamaged_raises
  unfold retryBackoffSeconds
  split
  · exact atomic_withUow (atomic_update (atomic_createDispatchEventIfAbsent _ _
      (fun _ => atomic_report _ _ _) undamaged_raises) (untouched_ret _) undamaged_raises)
      undamaged_error
  · exact undamaged_error _ _

end JobWorker

namespace StaleRunningRecovery

/-- A part of the batch returns before the commit. -/
def Pending {α : Type} (r : Except Exc α) (q : Phase) : Prop := ∀ a, r = .ok a → q = .untouched

theorem pending_raises {α : Type} : Raises (Pending (α := α)) := fun _ _ _ _ h => by cases h

theorem pending_ret {α : Type} (a : α) : atomic.Obeys (.ret a) Pending .untouched := fun _ _ => rfl

theorem recoverStaleJob_atomic (job : JobExecutionDTO) (now : Datetime) :
    atomic.Obeys (recoverStaleJob job now) Pending .untouched := by
  unfold recoverStaleJob
  cases job.executionToken with
  | none => exact pending_ret _
  | some token =>
    refine atomic_call rfl rfl (fun owner => ?_) pending_raises
    split
    · exact pending_ret _
    · split
      · exact atomic_update (atomic_createSystemLog _ _ _ (pending_ret _) pending_raises)
          (pending_ret _)
          pending_raises
      · exact atomic_update (atomic_createDispatchEventIfAbsent _ _
          (fun _ => atomic_createSystemLog _ _ _
          (pending_ret _) pending_raises) pending_raises) (pending_ret _) pending_raises

theorem recoverAll_atomic (now : Datetime) (jobs : List JobExecutionDTO) :
    atomic.Obeys (recoverAll now jobs) Pending .untouched := by
  induction jobs with
  | nil => exact pending_ret _
  | cons job rest ih =>
    refine .bind ((recoverStaleJob_atomic job now).mono fun r q hq => ?_)
    cases r with
    | error e => exact fun _ h => by cases h
    | ok n =>
      cases hq n rfl
      refine .bind (ih.mono fun r q hq => ?_)
      cases r with
      | error e => exact fun _ h => by cases h
      | ok ns =>
        cases hq ns rfl
        exact pending_ret _

theorem notifyAll_notifies : ∀ ns : List JobPostCommitNotification,
    (notifyAll ns).Asks fun o : Op => o.notifies = true
  | [] => trivial
  | n :: ns => .bind (notify_notifies n) fun _ => notifyAll_notifies ns

/-- The batch is committed, if there is anything to notify of. -/
def Batched (r : Except Exc (List JobPostCommitNotification)) (q : Phase) : Prop :=
  ∀ ns, r = .ok ns → (ns = [] ∧ q = .untouched) ∨ q = .committed

theorem recoverDueBatchOnce_atomic (settings : Settings) :
    atomic.Obeys (recoverDueBatchOnce settings) Undamaged .untouched := by
  unfold recoverDueBatchOnce Jobs.claimExpiredRunningJobsForUpdate
  simp only [Prog.bind_eq, Prog.pure_eq, utcNow, Prog.bind_assoc, Prog.ret_bind]
  have hraises : Raises Batched := fun _ _ _ _ h => by cases h
  refine atomic_call rfl rfl (fun now => .bind ((atomic_withUow (R := Batched) ?_
    fun _ _ _ h => by cases h).mono fun r q hq => ?_)) undamaged_raises
  · refine atomic_call rfl rfl (fun jobs => .bind ((recoverAll_atomic now _).mono fun r q hq => ?_))
      hraises
    cases r with
    | error e => exact fun _ h => by cases h
    | ok ns =>
      cases hq ns rfl
      cases ns with
      | nil => exact fun _ h => .inl ⟨(Except.ok.inj h).symm, rfl⟩
      | cons n ns => exact atomic_commit (fun _ _ => .inr rfl) hraises
  · cases r with
    | error e => exact undamaged_error e q
    | ok ns =>
      obtain ⟨rfl, rfl⟩ | rfl := hq ns rfl
      · exact fun _ _ => .inl rfl
      · refine .bind ((atomic_told (notifyAll_notifies ns)).mono fun r q hq => ?_)
        cases r with
        | error e => exact undamaged_error e q
        | ok done => exact fun _ _ => .inr hq

end StaleRunningRecovery

/-! ## The operations -/

inductive Operation where
  | createJob (settings : Settings) (currentUser : CurrentUserDTO) (idempotencyKey : String)
      (jobType : JobType) (payload : Json)
  | cancelJob (currentUser : CurrentUserDTO) (jobId : Uuid)
  | claimExecution (w : JobWorker) (dispatchMessage : DispatchOutboxMessage)
  | markCompleted (claim : ExecutionClaim)
  | markCancelled (claim : ExecutionClaim)
  | markFailed (claim : ExecutionClaim) (error : String)
  | scheduleRetry (claim : ExecutionClaim) (error : String)
  | recoverDueBatchOnce (settings : Settings)

/-- What it does; what it returns is left out. -/
def Operation.prog (P : Params) : Operation → Code Unit
  | .createJob settings user key type payload => do
      let _ ← JobService.createJob P.sha256 settings user key type payload
      return ()
  | .cancelJob user jobId => do
      let _ ← JobService.cancelJob user jobId
      return ()
  | .claimExecution w message => do
      let _ ← JobWorker.claimExecution w message
      return ()
  | .markCompleted claim => JobWorker.markCompleted claim
  | .markCancelled claim => JobWorker.markCancelled claim
  | .markFailed claim error => JobWorker.markFailed claim error
  | .scheduleRetry claim error => JobWorker.scheduleRetry claim error
  | .recoverDueBatchOnce settings => do
      let _ ← StaleRunningRecovery.recoverDueBatchOnce settings
      return ()

theorem Operation.prog_atomic (P : Params) (op : Operation) :
    atomic.Obeys (op.prog P) (fun _ _ => True) .untouched := by
  have hdone : ∀ {α : Type} {m : Code α} {R : Except Exc α → Phase → Prop},
      atomic.Obeys m R .untouched →
      atomic.Obeys (m.bind fun _ => .ret ()) (fun _ _ => True) .untouched := fun h =>
    .bind (h.mono fun r q _ => by cases r <;> trivial)
  cases op with
  | createJob settings user key type payload => exact hdone (JobService.createJob_atomic _ _ _ _ _ _)
  | cancelJob user j => exact hdone (JobService.cancelJob_atomic user j)
  | claimExecution w message => exact hdone (JobWorker.claimExecution_atomic w message)
  | markCompleted claim => exact (JobWorker.markCompleted_atomic claim).mono fun _ _ _ => trivial
  | markCancelled claim => exact (JobWorker.markCancelled_atomic claim).mono fun _ _ _ => trivial
  | markFailed claim error =>
    exact (JobWorker.markFailed_atomic claim error).mono fun _ _ _ => trivial
  | scheduleRetry claim error =>
    exact (JobWorker.scheduleRetry_atomic claim error).mono fun _ _ _ => trivial
  | recoverDueBatchOnce settings =>
    exact hdone (StaleRunningRecovery.recoverDueBatchOnce_atomic settings)

/-! ## One run -/

/-- The state of a run, and what is noted of it. -/
structure Attempt where
  shared : Shared
  /-- The calls made. -/
  turn : Nat
  /-- Those that have raised, the notifications apart. -/
  faults : List Nat
  /-- The committed state at each notification. -/
  sent : List Db
  obtained : List CreateJobRateLimitReservationDTO
  released : List CreateJobRateLimitReservationDTO
  acked : List Nat

/-- The reservation a call obtains. -/
def obtains : (o : Op) → Except Exc o.Ret → List CreateJobRateLimitReservationDTO
  | .reserve _, .ok reservation => reservation.toList
  | _, _ => []

/-- The reservation a call releases. -/
def Op.releases : Op → List CreateJobRateLimitReservationDTO
  | .releaseReservation reservation => [reservation]
  | _ => []

def isError {α : Type} : Except Exc α → Bool
  | .ok _ => false
  | .error _ => true

namespace Attempt

def start (s : Shared) : Attempt := ⟨s, 0, [], [], [], [], []⟩

def note (x : Attempt) (o : Op) (r : Except Exc o.Ret) (s : Shared) : Attempt where
  shared := s
  turn := x.turn + 1
  faults := if o.disturbs && isError r then x.turn :: x.faults else x.faults
  sent := if o.notifies then x.shared.core.db :: x.sent else x.sent
  obtained := obtains o r ++ x.obtained
  released := o.releases ++ x.released
  acked := acknowledges o r ++ x.acked

/-- One call of `p`: after some time, it goes as its turn says. -/
def answer (P : Params) (turns : Nat → Nat × Choice) (p : Pid) (o : Op) (x : Attempt) :
    Option (Except Exc o.Ret × Attempt) :=
  ((x.shared.tick (turns x.turn).1).exec P.reads p o (turns x.turn).2).map fun y =>
    (y.1, x.note o y.1 y.2)

end Attempt

/-- Alone, from a state of the system, to its end. -/
def Operation.run (P : Params) (turns : Nat → Nat × Choice) (p : Pid) (op : Operation)
    (s : Shared) : Option (Except Exc Unit × Attempt) :=
  (op.prog P).drive (Attempt.answer P turns p) (.start s)

section Run

variable {P : Params} {turns : Nat → Nat × Choice} {p : Pid} {o : Op} {x y : Attempt}
  {r : Except Exc o.Ret}

theorem Attempt.answer_cases (h : answer P turns p o x = some (r, y)) :
    ∃ s, (x.shared.tick (turns x.turn).1).exec P.reads p o (turns x.turn).2 = some (r, s) ∧
    y = x.note o r s := by
  obtain ⟨⟨r', s⟩, hs, heq⟩ := Option.map_eq_some_iff.mp h
  cases heq
  exact ⟨s, hs, rfl⟩

/-- A commit that raises has committed nothing, if it does not raise late. -/
theorem exec_commit_raised {reads : Datetime → Datetime → Bool} {ch : Choice} {s s' : Shared}
    {r : Except Exc Unit} (hlate : ∀ text, ch ≠ .failsAfter text)
    (he : s.exec reads p .commit ch = some (r, s')) (hr : isError r = true) :
    s'.core.db = s.core.db := by
  cases ch with
  | answer =>
    cases he
    cases hr
  | fails text =>
    cases he
    rfl
  | failsAfter text => exact absurd rfl (hlate text)
  | _ => cases he

/-- Only a commit that is answered changes what is committed. -/
theorem exec_keeps_db {reads : Datetime → Datetime → Bool} {ch : Choice} {s s' : Shared}
    (hlate : ∀ text, ch ≠ .failsAfter text) (he : s.exec reads p o ch = some (r, s'))
    (hc : o.commits = true → isError r = true) : s'.core.db = s.core.db := by
  cases hcommit : o.commits with
  | true =>
    cases o with
    | commit => exact exec_commit_raised hlate he (hc rfl)
    | _ => cases hcommit
  | false =>
    cases exec_effect he with
    | left => exact (Released.release p s).spend.db
    | committed heq => rw [heq] at hcommit; cases hcommit
    | committedAnswered heq => rw [heq] at hcommit; cases hcommit
    | _ => rfl

variable (hlate : ∀ i text, (turns i).2 ≠ .failsAfter text)

include hlate in
theorem Attempt.answer_db (h : answer P turns p o x = some (r, y))
    (hc : o.commits = true → isError r = true) : y.shared.core.db = x.shared.core.db := by
  obtain ⟨s, hs, rfl⟩ := answer_cases h
  have hdb := exec_keeps_db (hlate _) hs hc
  exact hdb

/-- A fault is noted, and stays noted. -/
theorem Attempt.answer_faults (h : answer P turns p o x = some (r, y)) :
    y.turn = x.turn + 1 ∧ y.faults = if o.disturbs && isError r then x.turn :: x.faults else
    x.faults := by
  obtain ⟨s, -, rfl⟩ := answer_cases h
  exact ⟨rfl, rfl⟩

theorem Attempt.answer_sent (h : answer P turns p o x = some (r, y)) :
    y.sent = if o.notifies then x.shared.core.db :: x.sent else x.sent := by
  obtain ⟨s, -, rfl⟩ := answer_cases h
  rfl

/-- The faults of a run that goes on from a state are those before, and later ones. -/
theorem Attempt.drive_faults {α : Type} {m : Code α} {res : Except Exc α}
    (h : m.drive (answer P turns p) x = some (res, y)) :
    x.turn ≤ y.turn ∧ (∀ k ∈ x.faults, k ∈ y.faults) ∧ ∀ k ∈ y.faults, k ∈ x.faults ∨
    x.turn ≤ k := by
  refine Prog.drive_keeps
    (I := fun z : Attempt => x.turn ≤ z.turn ∧ (∀ k ∈ x.faults, k ∈ z.faults) ∧
      ∀ k ∈ z.faults, k ∈ x.faults ∨ x.turn ≤ k) (fun {o z r z'} _ ho hz => ?_)
    (Prog.Asks.of_true m) h ⟨le_rfl, fun _ hk => hk, fun _ hk => .inl hk⟩
  obtain ⟨hturn, hfaults⟩ := answer_faults ho
  obtain ⟨hle, hold, hnew⟩ := hz
  rw [hturn, hfaults]
  refine ⟨Nat.le_succ_of_le hle, fun k hk => ?_, fun k hk => ?_⟩
  · split
    · exact List.mem_cons_of_mem _ (hold k hk)
    · exact hold k hk
  · split at hk
    · rcases List.mem_cons.mp hk with rfl | hk
      · exact .inr hle
      · exact hnew k hk
    · exact hnew k hk

/-- What has been noted since `z`: no fault while nothing has raised, and no ack. -/
structure Noted (z : Attempt) (q : Phase) (x : Attempt) : Prop where
  faults : q = .untouched ∨ q = .committed → x.faults = z.faults
  acked : x.acked = z.acked

theorem Noted.refl (z : Attempt) (q : Phase) : Noted z q z := ⟨fun _ => rfl, rfl⟩

/-- What has been told since `z`, and of what: nothing while nothing is committed, and afterwards of
nothing else. -/
structure Told (z : Attempt) (q : Phase) (x : Attempt) : Prop extends Noted z q x where
  quiet : q.isOver = false → x.shared.core.db = z.shared.core.db ∧ x.sent = z.sent
  sent : ∀ db ∈ x.sent, db ∈ z.sent ∨ db = x.shared.core.db

theorem Told.refl (z : Attempt) (q : Phase) :
    Told z q z := ⟨.refl z q, fun _ => ⟨rfl, rfl⟩, fun _ => .inl⟩

theorem Phase.not_notifies {q : Phase} (hq : q.isOver = false) (hok : q.allows o = true) :
    o.notifies = false := by
  cases q with
  | untouched => simpa using (Bool.and_eq_true_iff.mp hok).1
  | broken => simpa using (Bool.and_eq_true_iff.mp (Bool.and_eq_true_iff.mp hok).1).1
  | committed => cases hq
  | interrupted => cases hq

theorem Phase.not_acks {q : Phase} (hok : q.allows o = true) : o.acks = false := by
  cases o with
  | ack id => cases q <;> cases hok
  | _ => rfl

theorem Phase.untouched_of_commits {q : Phase} (hok : q.allows o = true) (h : o.commits = true) :
    q = .untouched := by
  cases o with
  | commit => cases q with
    | untouched => rfl
    | _ => cases hok
  | _ => cases h

theorem Phase.isOver_fault_self (q : Phase) : q.fault.isOver = q.isOver := by cases q <;> rfl

theorem Phase.fault_ne (q : Phase) : ¬ (q.fault = .untouched ∨ q.fault = .committed) := by
  cases q <;> simp [fault]

/-- A call that is not an answered commit leads to a phase of the same side. -/
theorem atomic_next {q : Phase} (h : o.commits = true → isError r = true) :
    (atomic.next q o r : Phase) = if o.disturbs && isError r then q.fault else q := by
  cases r with
  | ok a =>
    cases hc : o.commits with
    | true =>
      have herr := h hc
      cases herr
    | false =>
      rw [isError, Bool.and_false]
      show (if o.commits then Phase.committed else q) = q
      rw [hc]
      rfl
  | error e =>
    rw [isError, Bool.and_true]

/-- Where a call that counts has raised. -/
theorem atomic_next_fault {q : Phase} (h : (o.disturbs && isError r) = true) :
    (atomic.next q o r : Phase) = q.fault := by
  rw [atomic_next fun _ => (Bool.and_eq_true_iff.mp h).2, if_pos h]

theorem Noted.call {z : Attempt} {q : Phase} (h : Noted z q x) (hok : q.allows o = true)
    (ho : Attempt.answer P turns p o x = some (r, y)) : Noted z (atomic.next q o r) y := by
  obtain ⟨-, hfaults⟩ := Attempt.answer_faults ho
  refine ⟨fun hq => ?_, ?_⟩
  · by_cases hfault : (o.disturbs && isError r) = true
    · rw [atomic_next_fault hfault] at hq
      exact absurd hq q.fault_ne
    · rw [hfaults, if_neg hfault]
      refine h.faults ?_
      -- a commit that is answered is made while nothing has happened
      by_cases hcommit : o.commits = true → isError r = true
      · rwa [atomic_next hcommit, if_neg hfault] at hq
      · exact .inl (Phase.untouched_of_commits hok (Classical.not_imp.mp hcommit).1)
  · refine Eq.trans ?_ h.acked
    obtain ⟨s', -, rfl⟩ := Attempt.answer_cases ho
    have hack := Phase.not_acks hok
    cases o with
    | ack id => cases hack
    | _ => rfl

/-- Whether anything has raised where a part of an operation ends. -/
theorem Noted.drive {α : Type} {m : Code α} {R : Except Exc α → Phase → Prop}
    {res : Except Exc α} {q : Phase}
    (h : atomic.Obeys m R q) (hrun : m.drive (Attempt.answer P turns p) x = some (res, y)) :
    ∃ q', Noted x q' y ∧ R res q' :=
  h.drive (I := Noted x) (fun hI hok ho => ⟨trivial, hI.call hok ho⟩) (Noted.refl x q) hrun

include hlate in
theorem Told.call {z : Attempt} {q : Phase} (h : Told z q x) (hok : q.allows o = true)
    (ho : Attempt.answer P turns p o x = some (r, y)) : Told z (atomic.next q o r) y := by
  have hnoted := h.toNoted.call hok ho
  have hsent := Attempt.answer_sent ho
  by_cases hcommit : o.commits = true → isError r = true
  · have hdb := Attempt.answer_db hlate ho hcommit
    refine ⟨hnoted, fun hover => ?_, fun db hmem => ?_⟩
    · rw [atomic_next hcommit] at hover
      have hq : q.isOver = false := by
        split at hover
        · rwa [Phase.isOver_fault_self] at hover
        · exact hover
      rw [hdb, hsent, Phase.not_notifies hq hok]
      exact h.quiet hq
    · rw [hdb]
      rw [hsent] at hmem
      split at hmem
      · rcases List.mem_cons.mp hmem with rfl | hmem
        · exact .inr rfl
        · exact h.sent db hmem
      · exact h.sent db hmem
  · -- the commit
    obtain ⟨hc, hr⟩ := Classical.not_imp.mp hcommit
    have hq := Phase.untouched_of_commits hok hc
    subst hq
    cases r with
    | error e => exact absurd rfl hr
    | ok a =>
      have hsame : y.sent = z.sent := by
        rw [hsent, Phase.not_notifies rfl hok]
        exact (h.quiet rfl).2
      refine ⟨hnoted, fun hover => ?_, fun db hmem => .inl (hsame ▸ hmem)⟩
      rw [show (atomic.next Phase.untouched o (.ok a) : Phase) = .committed from if_pos hc] at hover
      cases hover

include hlate in
/-- What has been told where a part of an operation ends. -/
theorem Told.drive {α : Type} {m : Code α} {R : Except Exc α → Phase → Prop}
    {res : Except Exc α} {q : Phase}
    (h : atomic.Obeys m R q) (hrun : m.drive (Attempt.answer P turns p) x = some (res, y)) :
    ∃ q', Told x q' y ∧ R res q' :=
  h.drive (I := Told x) (fun hI hok ho => ⟨trivial, hI.call hlate hok ho⟩) (Told.refl x q) hrun

/-! ## The run that goes on -/

/-- After the commit nothing waits, and the database answers if it does not fail. -/
theorem Attempt.answer_closing {q : Phase} (hover : q.isOver = true) (hok : q.allows o = true)
    (hturn : turns x.turn = (0, .answer)) :
    ∃ r y, answer P turns p o x = some (r, y) ∧ atomic.next q o r = q ∧ y.turn = x.turn + 1 ∧
      y.faults = x.faults ∧ y.shared.core.db = x.shared.core.db := by
  have hclosing : o.isClosing = true := by
    cases q with
    | untouched => cases hover
    | broken => cases hover
    | committed => exact hok
    | interrupted => exact hok
  have hanswer : ∀ (r : Except Exc o.Ret) (s : Shared), (x.shared.tick 0).answer p o = some (r, s) →
      answer P turns p o x = some (r, x.note o r s) := fun r s hs => by
    rw [answer, hturn]
    exact congrArg (Option.map _) hs
  cases o with
  | aenter => exact ⟨_, _, hanswer _ _ rfl, rfl, rfl, rfl, rfl⟩
  | selectJob id owner => exact ⟨_, _, hanswer _ _ rfl, rfl, rfl, rfl, rfl⟩
  | redisInvalidate owner => exact ⟨_, _, hanswer _ _ rfl, rfl, rfl, rfl, rfl⟩
  | redisPublish ev => exact ⟨_, _, hanswer _ _ rfl, rfl, rfl, rfl, rfl⟩
  | aexit raised =>
    refine ⟨_, _, hanswer _ _ rfl, rfl, rfl, rfl, ?_⟩
    cases raised with
    | true => rfl
    | false => exact (Released.release p (x.shared.tick 0)).spend.db
  | _ => cases hclosing

theorem Attempt.closing {α : Type} {R : Except Exc α → Phase → Prop} :
    ∀ {m : Code α} {q : Phase} {x : Attempt},
    q.isOver = true → atomic.Obeys m R q → (∀ i, x.turn ≤ i → turns i = (0, .answer)) →
      ∃ r y, m.drive (answer P turns p) x = some (r, y) ∧ y.faults = x.faults ∧
        y.shared.core.db = x.shared.core.db
  | .ret _, _, _, _, _, _ => ⟨_, _, rfl, rfl, rfl⟩
  | .raise _, _, _, _, _, _ => ⟨_, _, rfl, rfl, rfl⟩
  | .call o k, q, x, hover, h, hturns => by
    obtain ⟨r, x₁, ho, hnext, hturn, hfaults, hdb⟩ := answer_closing (P := P) (p := p) hover h.1
      (hturns x.turn le_rfl)
    have hk := h.2 r trivial
    rw [hnext] at hk
    obtain ⟨r', y, hrun, hfaults', hdb'⟩ := closing (x := x₁) hover hk fun i hi =>
      hturns i (by omega)
    refine ⟨r', y, ?_, hfaults'.trans hfaults, hdb'.trans hdb⟩
    rw [Prog.drive, ho]
    exact hrun

/-- The same turns up to the first fault, and then everything answers at once. -/
def mended (turns : Nat → Nat × Choice) (faults : List Nat) (i : Nat) : Nat × Choice :=
  if ∀ k ∈ faults, i < k then turns i else (0, .answer)

theorem mended_of_le {faults : List Nat} {i k : Nat} (hk : k ∈ faults) (hle : k ≤ i) :
    mended turns faults i = (0, .answer) := if_neg fun h => absurd (h k hk) (by omega)

/-- A call before the first fault goes as it went. -/
theorem Attempt.answer_mended {faults : List Nat} (h : ∀ k ∈ faults, x.turn < k) :
    answer P (mended turns faults) p o x = answer P turns p o x := by
  rw [answer, answer, mended, if_pos h]

/-- Who has been disturbed before the commit does not commit. -/
theorem Phase.broken_next (hok : Phase.broken.allows o = true) :
    (atomic.next Phase.broken o r : Phase) = .broken := by
  rw [atomic_next fun hc => by cases Phase.untouched_of_commits hok hc]
  split <;> rfl

/-- After the commit the database stays as it is. -/
theorem Phase.over_next {q : Phase} (hover : q.isOver = true) (hok : q.allows o = true) :
    o.commits = false ∧ (atomic.next q o r : Phase).isOver = true := by
  have hc : o.commits = false := by
    cases hc : o.commits with
    | false => rfl
    | true => rw [Phase.untouched_of_commits hok hc] at hover; cases hover
  refine ⟨hc, ?_⟩
  rw [atomic_next fun h => by rw [hc] at h; cases h]
  split
  · rw [Phase.isOver_fault_self, hover]
  · exact hover

include hlate in
theorem Attempt.over_db {α : Type} {m : Code α} {R : Except Exc α → Phase → Prop} {q : Phase}
    {res : Except Exc α} (hover : q.isOver = true) (h : atomic.Obeys m R q)
    (hrun : m.drive (answer P turns p) x = some (res, y)) :
    y.shared.core.db = x.shared.core.db := by
  obtain ⟨q', ⟨-, hdb⟩, -⟩ := h.drive
    (I := fun (q' : Phase) z => q'.isOver = true ∧ z.shared.core.db = x.shared.core.db)
    (fun {q' o z r z'} hI hok ho =>
      ⟨trivial, (Phase.over_next hI.1 hok).2, (answer_db hlate ho fun hc => by
      rw [(Phase.over_next (r := r) hI.1 hok).1] at hc
      cases hc).trans hI.2⟩) ⟨hover, rfl⟩ hrun
  exact hdb

include hlate in
/-- What a run of the rest of an operation comes to: nothing, or what the run that goes on comes
to. -/
theorem Attempt.mend {α : Type} {R : Except Exc α → Phase → Prop} :
    ∀ {m : Code α} {q : Phase} {x y : Attempt}
    {res : Except Exc α}, (q = .untouched ∨ q = .committed) → x.faults = [] → atomic.Obeys m R q →
      m.drive (answer P turns p) x = some (res, y) →
      (q = .untouched ∧ y.shared.core.db = x.shared.core.db ∧ y.sent = x.sent) ∨
      ∃ res' z, m.drive (answer P (mended turns y.faults) p) x = some (res', z) ∧ z.faults = [] ∧
        z.shared.core.db = y.shared.core.db
  | .ret _, _, x, _, _, _, hx, _, hrun => by
    cases hrun
    exact .inr ⟨_, x, rfl, hx, rfl⟩
  | .raise _, _, x, _, _, _, hx, _, hrun => by
    cases hrun
    exact .inr ⟨_, x, rfl, hx, rfl⟩
  | .call o k, q, x, y, res, hq, hx, h, hrun => by
    obtain ⟨r, x₁, ho, hrest⟩ := Prog.drive_call hrun
    have hk := h.2 r trivial
    obtain ⟨hturn, hfaults⟩ := answer_faults ho
    obtain ⟨-, hkept, hlater⟩ := drive_faults hrest
    by_cases hfault : (o.disturbs && isError r) = true
    · -- the first fault
      rw [hx, if_pos hfault] at hfaults
      have hmem : x.turn ∈ y.faults := hkept _ (hfaults ▸ List.mem_singleton_self _)
      have hnext : (atomic.next q o r : Phase) = q.fault := by
        rw [atomic_next fun _ => (Bool.and_eq_true_iff.mp hfault).2, if_pos hfault]
      rcases hq with rfl | rfl
      · have htold := (Told.refl x .untouched).call hlate h.1 ho
        rw [hnext] at hk htold
        obtain ⟨q', ⟨rfl, hend⟩, -⟩ := hk.drive (I := fun (q' : Phase) z =>
          q' = .broken ∧ Told x q' z)
          (fun {q' o z r z'} hI hok ho' => ⟨trivial, by
            obtain ⟨rfl, hI⟩ := hI
            exact ⟨Phase.broken_next hok, hI.call hlate hok ho'⟩⟩) ⟨rfl, htold⟩ hrest
        exact .inl ⟨rfl, hend.quiet rfl⟩
      · have hcalm : ∀ i, x.turn ≤ i → mended turns y.faults i = (0, .answer) :=
          fun i hi => mended_of_le hmem hi
        obtain ⟨res', z, hz, hzf, hzdb⟩ := closing (P := P) (p := p) (x := x)
          (q := .committed) rfl h hcalm
        exact .inr ⟨res', z, hz, hzf.trans hx,
          hzdb.trans (over_db (q := .committed) hlate rfl h hrun).symm⟩
    · -- the run goes on as before
      rw [if_neg hfault, hx] at hfaults
      have hbefore : ∀ k ∈ y.faults, x.turn < k := fun k hmem => by
        rcases hlater k hmem with hk | hk
        · rw [hfaults] at hk
          cases hk
        · omega
      have hcons : ∀ {res' z},
          (k r).drive (answer P (mended turns y.faults) p) x₁ = some (res', z) →
          (Prog.call o k).drive (answer P (mended turns y.faults) p) x = some (res', z) :=
        fun {res' z} hz => by
        rw [Prog.drive, answer_mended hbefore, ho]
        exact hz
      have hphase : (atomic.next q o r : Phase) = .committed ∨
          (atomic.next q o r : Phase) = .untouched ∧ q = .untouched ∧
          (o.commits = true → isError r = true) := by
        by_cases hcommit : o.commits = true → isError r = true
        · rw [atomic_next hcommit, if_neg hfault]
          exact hq.elim (fun hu => .inr ⟨hu, hu, hcommit⟩) .inl
        · obtain ⟨hc, hr⟩ := Classical.not_imp.mp hcommit
          cases r with
          | error e => exact absurd rfl hr
          | ok a => exact .inl (if_pos hc)
      rcases hphase with hc | ⟨hu, rfl, hcommit⟩
      · rw [hc] at hk
        obtain ⟨hne, -⟩ | ⟨res', z, hz, hzf, hzdb⟩ := mend (.inr rfl) hfaults hk hrest
        · cases hne
        · exact .inr ⟨res', z, hcons hz, hzf, hzdb⟩
      · rw [hu] at hk
        obtain ⟨-, hdb, hsent⟩ | ⟨res', z, hz, hzf, hzdb⟩ := mend (.inl rfl) hfaults hk hrest
        · refine .inl ⟨rfl, hdb.trans (answer_db hlate ho hcommit), hsent.trans ?_⟩
          rw [answer_sent ho, Phase.not_notifies rfl h.1]
          rfl
        · exact .inr ⟨res', z, hcons hz, hzf, hzdb⟩

include hlate in
/-- **All or nothing.** An operation has changed nothing and told nobody, or has done what it does
when nothing more raises after the turn where something first did; and it tells of nothing that is
not committed. -/
theorem operations_all_or_nothing {s : Shared} {op : Operation} {res : Except Exc Unit}
    (hrun : op.run P turns p s = some (res, y)) :
    ((y.shared.core.db = s.core.db ∧ y.sent = []) ∨
      ∃ res' z, op.run P (mended turns y.faults) p s = some (res', z) ∧ z.faults = [] ∧
        z.shared.core.db = y.shared.core.db) ∧
    ∀ db ∈ y.sent, db = y.shared.core.db := by
  have hobeys := op.prog_atomic P
  obtain ⟨q, htold, -⟩ := Told.drive hlate hobeys hrun
  refine ⟨?_, fun db hmem => (htold.sent db hmem).elim (fun hnil => by cases hnil) id⟩
  exact (Attempt.mend hlate (.inl rfl) rfl hobeys hrun).imp And.right id

end Run

/-- User 1 creates job 10 with dispatch event 20; call `broken` raises. -/
def creationTurns (broken i : Nat) : Nat × Choice :=
  (0, if i = broken then .fails "down"
    else if i ∈ [4, 5, 7, 9, 10] then .time 0
    else if i = 2 then .reservation (some ⟨"k", 5, 1, 4, 60, 60⟩)
    else if i = 3 then .uuid 10
    else if i = 11 then .uuid 20
    else .answer)

theorem creationTurns_early (broken i : Nat) (text : String) :
    (creationTurns broken i).2 ≠ .failsAfter text := by
  unfold creationTurns
  split_ifs <;> exact fun h => by cases h

/-- User 1 is registered. -/
def registered : Shared := { Shared.init with core :=
    { Core.init with db := { Db.empty with users := [1] } } }

/-- The exit of the unit of work raises, after the commit and three notifications. -/
theorem operations_all_or_nothing_exit : ∃ res y,
    (Operation.createJob {} ⟨1, .user⟩ "k" .success (.obj [])).run .default
    (creationTurns 17) 0 registered =
      some (res, y) ∧ y.faults = [17] ∧ y.sent.length = 3 ∧
    ((y.shared.core.db = registered.core.db ∧ y.sent = []) ∨
      ∃ res' z, (Operation.createJob {} ⟨1, .user⟩ "k" .success (.obj [])).run .default
        (mended (creationTurns 17) y.faults) 0 registered = some (res', z) ∧ z.faults = [] ∧
          z.shared.core.db = y.shared.core.db) ∧
    ∀ db ∈ y.sent, db = y.shared.core.db := by
  have hrun : ((Operation.createJob {} ⟨1, .user⟩ "k" .success (.obj [])).run .default
    (creationTurns 17) 0
      registered).map (fun z => (z.2.faults, z.2.sent.length)) = some ([17], 3) := by
    decide +kernel
  obtain ⟨⟨res, y⟩, hrun, hy⟩ := Option.map_eq_some_iff.mp hrun
  rw [Prod.mk.injEq] at hy
  exact ⟨res, y, hrun, hy.1, hy.2, operations_all_or_nothing (creationTurns_early 17) hrun⟩

/-! ## The message -/

namespace JobWorker

/-- What `_execute_claim` does once the handler has ended. -/
def finalizer (claim : ExecutionClaim) : Except Exc Unit → Code Unit
  | .error (.jobCancellationRequested _) => markCancelled claim
  | .error (.missingJobHandler text) => markFailed claim text
  | .error (.jobExecution text) => finalizeFailure claim text
  | .error e => finalizeFailure claim e.str
  | .ok _ => markCompleted claim

theorem executeClaim_eq (w : JobWorker) (claim : ExecutionClaim) :
    executeClaim w claim = (executeHandler w claim).attempt.bind (finalizer claim) := by
  refine congrArg (Prog.bind _) (funext fun r => ?_)
  cases r with
  | ok done => rfl
  | error e => cases e <;> rfl

theorem finalizeFailure_atomic (claim : ExecutionClaim) (error : String) :
    atomic.Obeys (finalizeFailure claim error) Undamaged .untouched := by
  unfold finalizeFailure
  split
  · exact markFailed_atomic claim error
  · exact scheduleRetry_atomic claim error

theorem finalizer_atomic (claim : ExecutionClaim) (outcome : Except Exc Unit) :
    atomic.Obeys (finalizer claim outcome) Undamaged .untouched := by
  cases outcome with
  | ok done => exact markCompleted_atomic claim
  | error e =>
    cases e with
    | jobCancellationRequested text => exact markCancelled_atomic claim
    | missingJobHandler text => exact markFailed_atomic claim text
    | _ => exact finalizeFailure_atomic claim _

/-- An execution acks nothing. -/
theorem executeHandler_acks (w : JobWorker) (claim : ExecutionClaim) :
    (executeHandler w claim).Asks fun o : Op => o.acks = false := by
  refine (executeHandler_executes w claim).mono fun o ho => ?_
  cases o with
  | ack id => cases ho
  | _ => rfl

end JobWorker

section Message

variable {P : Params} {turns : Nat → Nat × Choice} {p : Pid} {x y : Attempt}

/-- Who never acks has acked nothing. -/
theorem Attempt.drive_acked {α : Type} {m : Code α} {res : Except Exc α}
    (h : m.Asks fun o : Op => o.acks = false)
    (hrun : m.drive (answer P turns p) x = some (res, y)) : y.acked = x.acked :=
  Prog.drive_keeps (I := fun z : Attempt => z.acked = x.acked) (fun {o z r z'} hok ho hz => by
    obtain ⟨s, -, rfl⟩ := answer_cases ho
    cases o with
    | ack id => cases hok
    | _ => exact hz) h hrun rfl

/-- An execution is the handler's run, and then what finalizes it. -/
theorem JobWorker.executeClaim_drive {w : JobWorker} {claim : ExecutionClaim}
    {res : Except Exc Unit}
    (h : (executeClaim w claim).drive (Attempt.answer P turns p) x = some (res, y)) :
    ∃ outcome x₁, (executeHandler w claim).drive (Attempt.answer P turns p) x = some (outcome, x₁) ∧
      (finalizer claim outcome).drive (Attempt.answer P turns p) x₁ = some (res, y) := by
  rw [executeClaim_eq] at h
  obtain ⟨e, hraise, -⟩ | ⟨outcome, x₁, hattempt, hrest⟩ := Prog.drive_bind h
  · rw [Prog.drive_attempt] at hraise
    obtain ⟨z, -, hz⟩ := Option.map_eq_some_iff.mp hraise
    cases hz
  · rw [Prog.drive_attempt] at hattempt
    obtain ⟨⟨r, z⟩, hrun, hz⟩ := Option.map_eq_some_iff.mp hattempt
    cases hz
    exact ⟨_, _, hrun, hrest⟩

/-- The ack itself: it is made, or it raises. -/
theorem Attempt.drive_ack {id : Nat} {res : Except Exc Unit}
    (h : (CloudJob.call (.ack id)).drive (answer P turns p) x = some (res, y)) :
    y.acked = id :: x.acked ∨ y.acked = x.acked := by
  obtain ⟨r, x₁, ho, hrest⟩ := Prog.drive_call h
  obtain ⟨s, -, rfl⟩ := answer_cases ho
  cases r with
  | ok done =>
    cases hrest
    exact .inl rfl
  | error e =>
    cases hrest
    exact .inr rfl

/-- What a message has gone through that was acked: a claim in which nothing raised, and if it
claimed anything, the handler and a finalizer in which nothing raised. -/
def JobWorker.Handled (w : JobWorker) (dispatchMessage : DispatchOutboxMessage) (P : Params)
    (turns : Nat → Nat × Choice) (p : Pid) (x : Attempt) : Prop :=
  ∃ claimed x₁, (claimExecution w dispatchMessage).drive (Attempt.answer P turns p) x = some
    (.ok claimed, x₁) ∧
    x₁.faults = x.faults ∧
    ∀ claim, claimed = some claim → ∃ outcome x₂ x₃,
      (executeHandler w claim).drive (Attempt.answer P turns p) x₁ = some (outcome, x₂) ∧
      (finalizer claim outcome).drive (Attempt.answer P turns p) x₂ = some (.ok (), x₃) ∧
      x₃.faults = x₂.faults

/-- **A message is acked only if nothing raised** in its claim or its finalizer, and once. -/
theorem acked_undisturbed {w : JobWorker} {message : Message} {s : Shared} {res : Except Exc Unit}
    (hrun : (JobWorker.handleMessage w message).drive (Attempt.answer P turns p) (.start s) =
      some (res, y))
    (hack : y.acked ≠ []) :
    y.acked = [message.id] ∧
      ∃ dispatchMessage, message.body = .dispatch dispatchMessage ∧
      w.Handled dispatchMessage P turns p (.start s) := by
  obtain ⟨id, body⟩ := message
  cases body with
  | invalid text => exact absurd (Attempt.drive_acked (.perform rfl) hrun) hack
  | dispatch d =>
    obtain ⟨e, hclaim, -⟩ | ⟨claimed, x₁, hclaim, hrest⟩ := Prog.drive_bind hrun
    · obtain ⟨q, hnoted, -⟩ := Noted.drive (JobWorker.claimExecution_atomic w d) hclaim
      exact absurd hnoted.acked hack
    · obtain ⟨q, hnoted, hq⟩ := Noted.drive (JobWorker.claimExecution_atomic w d) hclaim
      have hfaults : x₁.faults = [] := hnoted.faults (hq claimed rfl)
      cases claimed with
      | none =>
        have hacked := (Attempt.drive_ack hrest).resolve_right fun h => hack (h.trans hnoted.acked)
        exact ⟨hacked.trans (congrArg _ hnoted.acked), d, rfl, none, x₁, hclaim, hfaults,
          fun _ h => by cases h⟩
      | some claim =>
        obtain ⟨e, hexec, -⟩ | ⟨done, x₃, hexec, hrest⟩ := Prog.drive_bind hrest
        all_goals
          obtain ⟨outcome, x₂, hhandler, hfinal⟩ := JobWorker.executeClaim_drive hexec
          obtain ⟨q', hnoted', hq'⟩ := Noted.drive (JobWorker.finalizer_atomic claim outcome) hfinal
          have hacked' := (hnoted'.acked.trans
            (Attempt.drive_acked (JobWorker.executeHandler_acks w claim)
            hhandler)).trans hnoted.acked
        · exact absurd hacked' hack
        · have hacked := (Attempt.drive_ack hrest).resolve_right fun h => hack (h.trans hacked')
          refine ⟨hacked.trans (congrArg _ hacked'), d, rfl, some claim, x₁, hclaim, hfaults,
            fun c hc => ?_⟩
          cases hc
          exact ⟨outcome, x₂, x₃, hhandler, hfinal, hnoted'.faults (hq' done rfl)⟩

end Message

/-- The worker claims and completes job 10; the first invalidation raises. -/
def consumptionTurns (i : Nat) : Nat × Choice :=
  (0, if i = 11 then .fails "down"
    else if i ∈ [0, 8, 15, 18] then .time 0
    else if i = 1 then .uuid 20
    else .answer)

/-- Redis raises, the message is acked all the same. -/
theorem acked_undisturbed_completed : ∃ (w : World (machine .default)) (y : Attempt),
    (machine .default).run ([.env (.register 1)] ++ createMoves 0 1 10 11 "k" .success
      0 ++ publishMoves 1 0) (World.init .default) = some w ∧ y.turn = 25 ∧
    y.acked = [0] ∧ ∃ dispatchMessage, MessageBody.dispatch ⟨11, 10, 0⟩ = .dispatch
      dispatchMessage ∧
      JobWorker.Handled ⟨{}, "w", buildJobHandlerRegistry⟩ dispatchMessage .default
      consumptionTurns 2
        (.start w.shared) := by
  have hrun : ((machine .default).run ([.env (.register 1)] ++ createMoves 0 1 10 11
    "k" .success 0 ++
      publishMoves 1 0) (World.init .default)).bind (fun w =>
        ((JobWorker.handleMessage ⟨{}, "w", buildJobHandlerRegistry⟩
          ⟨0, .dispatch ⟨11, 10, 0⟩⟩).drive
          (Attempt.answer .default consumptionTurns 2) (.start w.shared)).map fun z =>
          (z.2.acked, z.2.turn)) =
      some ([0], 25) := by
    decide +kernel
  obtain ⟨w, hw, hmap⟩ := Option.bind_eq_some_iff.mp hrun
  obtain ⟨⟨res, y⟩, hdrive, hy⟩ := Option.map_eq_some_iff.mp hmap
  rw [Prod.mk.injEq] at hy
  refine ⟨w, y, hw, hy.2, acked_undisturbed hdrive fun hnil => ?_⟩
  have hack : y.acked = [0] := hy.1
  rw [hnil] at hack
  cases hack

end CloudJob
