import CloudJob.Lib.Observer
import CloudJob.Contract.Soundness

/-!
# `Safety/Publishing.lean` — how often an event is published

The batch a publisher works through is a list of ids: its locks are gone before the first event is
processed, and two publishers may well have listed the same one. What keeps them apart is the lock
that `_process_claimed_event_once` takes on the event again, on the condition that it is still
unpublished. A publish is made under that lock, so no two are in progress at once; and it is made
once in a transaction, which then marks the event or does not end in a commit.

How often an event was published, and how often a transaction that had it in hand was rolled back,
is counted along a run (`tally`). That a transaction publishes once and marks what it published is
read off the text of the publisher (`publishing`). -/

set_option autoImplicit false

namespace CloudJob

open Lib

variable {P : Params} {w w' : World (machine P)} {p : Pid}

/-! ## The count -/

/-- Which event each process has in hand, how often each event was published, and how many of the
transactions that had it in hand were rolled back. -/
structure Tally where
  processing : Pid → Option Uuid
  published : Uuid → Nat
  rolledBack : Uuid → Nat

def Tally.zero : Tally := ⟨fun _ => none, fun _ => 0, fun _ => 0⟩

/-- The event a process has in hand after a call that went `ch` and led to `s'`. A commit that
raises without effect leaves the transaction open. -/
def heldAfter (s' : Shared) (p : Pid) (ch : Choice) (held : Option Uuid) : Op → Option Uuid
  | .lockUnpublishedEvent e => if s'.locks (.event e) = some p then some e else held
  | .commit => match ch with
    | .fails _ => held
    | _ => none
  | .rollback => none
  | .aexit _ => none
  | _ => held

def countOne (f : Uuid → Nat) (e : Uuid) : Uuid → Nat := Function.update f e (f e + 1)

/-- The transaction of `p` ends without a commit. -/
def Tally.rollBack (t : Tally) (p : Pid) : Tally :=
  { t with
    processing := Function.update t.processing p none
    rolledBack := (t.processing p).elim t.rolledBack (countOne t.rolledBack) }

/-- A call of `p`. -/
def Tally.call (t : Tally) (s' : Shared) (p : Pid) (ch : Choice) (o : Op) : Tally :=
  { processing := Function.update t.processing p (heldAfter s' p ch (t.processing p) o)
    published := match o with
      | .publishDispatch m => countOne t.published m.eventId
      | _ => t.published
    rolledBack := match o with
      | .rollback | .aexit _ => (t.processing p).elim t.rolledBack (countOne t.rolledBack)
      | _ => t.rolledBack }

theorem Tally.processing_call (t : Tally) (s' : Shared) (p : Pid) (ch : Choice) (o : Op) :
    (t.call s' p ch o).processing p = heldAfter s' p ch (t.processing p) o :=
    Function.update_self ..

theorem Tally.processing_call_other (t : Tally) (s' : Shared) (ch : Choice) (o : Op) {q : Pid}
    (hq : q ≠ p) : (t.call s' p ch o).processing q = t.processing q := Function.update_of_ne hq ..

/-- Counting along a run. -/
def tally : Notes (machine P) Tally := fun w m w' t => match m with
  | .run p ch => match w.procs p with
    | some (_, .call o _) => t.call w'.shared p ch o
    | _ => t
  | .crash p => t.rollBack p
  | _ => t

/-! ## The text of the publisher -/

/-- What a publisher has done in its transaction: the event it has in hand, whether it was published
and marked, and whether a call has raised since. -/
structure Stage where
  event : Option Uuid := none
  sent : Bool := false
  marked : Bool := false
  failed : Bool := false

/-- A statement that violates no constraint. -/
def Stmt.isPlain : Stmt → Bool
  | .insertJob _ | .insertEvent _ => false
  | _ => true

/-- An event is published once, and before a commit it is marked; a transaction that has one in hand
is not left without a commit, unless a call has raised. -/
@[reducible] def publishing : Discipline sig where
  State := Stage
  ok q o := match o with
    | .now | .aenter | .lockDueEvents _ _ | .selectJobForUpdate _ _ | .lockUnpublishedEvent _ =>
        True
    | .write st => st.isPlain = true
    | .publishDispatch m => q.event = some m.eventId ∧ q.sent = false
    | .commit => q.sent = true → q.marked = true
    | .rollback | .aexit _ => q.event.isSome = true → q.failed = true
    | _ => False
  may q o r := match o, r with
    | .lockUnpublishedEvent e, .ok (some ev) => ev.id = e ∧
        ∃ m, modelValidate ev.payload = .ok m ∧ m.eventId = e
    | .write (.updateEvent e (.markPublished _)), .ok done => q.event = some e → done = true
    | _, _ => True
  next q o r := match o, r with
    | .lockUnpublishedEvent e, .ok (some _) => { event := some e }
    | .write (.updateEvent e (.markPublished _)), .ok true =>
        { q with marked := q.marked || q.event == some e }
    | .publishDispatch _, .ok _ => { q with sent := true }
    | .publishDispatch _, .error _ => { q with sent := true, failed := true }
    | .commit, .ok _ => {}
    | .commit, .error _ => { q with event := none, failed := true }
    | .rollback, _ => {}
    | .aexit _, _ => {}
    | _, .error _ => { q with failed := true }
    | _, .ok _ => q

/-- Where a transaction may be left. -/
def Stage.Over (q : Stage) : Prop := q.event.isSome = true → q.failed = true

/-- How a part of the publisher ends: outside of any transaction, or with an exception. -/
def Rests {α : Type} : Except Exc α → Stage → Prop
  | .ok _, q => q = {}
  | .error _, q => q.Over

theorem publishing_withUow {α : Type} {body : Code α} {q : Stage}
    (h : publishing.Obeys body (fun _ q => q.Over) q) :
    publishing.Obeys (withUow body) Rests q := by
  refine .perform trivial (fun _ _ => .bind (.attempt (h.mono fun r q' hover => ?_)))
    fun _ _ _ => rfl
  cases r with
  | ok a => exact .perform hover (fun _ _ => rfl) fun _ _ => nofun
  | error e => exact .perform hover (fun _ _ => nofun) fun _ _ => nofun

/-- How the last part of every branch ends: the event is marked and committed, or a call has
raised. -/
def Settles : Except Exc Bool → Stage → Prop
  | .ok returned, q => returned = true ∧ q = {}
  | .error _, q => q.Over

theorem Settles.over {r : Except Exc Bool} {q : Stage} (h : Settles r q) : q.Over := by
  cases r with
  | ok returned =>
    obtain ⟨-, rfl⟩ := h
    exact nofun
  | error e => exact h

namespace OutboxPublisher

/-- `mark_published` and the commit, for the event in hand. -/
theorem settle_obeys {e : Uuid} {now : Datetime} {q : Stage} (hq : q.event = some e) :
    publishing.Obeys ((Outbox.markPublished e now).bind fun _ =>
      CloudJob.commit.bind fun _ => .ret true) Settles q := by
  unfold Outbox.markPublished
  simp only [Prog.bind_eq, Prog.pure_eq, Prog.bind_assoc, Prog.ret_bind]
  refine .perform rfl (fun done hd => ?_) fun _ _ _ => rfl
  obtain rfl : done = true := hd hq
  refine .perform (fun _ => ?_) (fun _ _ => ⟨rfl, rfl⟩) fun _ _ => nofun
  simp [hq]

theorem discard_obeys {e : Uuid} {ev : OutboxEvent} {status : JobStatus} {q : Stage}
    (hq : q.event = some e) (hid : ev.id = e) :
    publishing.Obeys ((discardNonDispatchableEvent ev status).bind fun _ =>
        CloudJob.commit.bind fun _ => .ret true)
      Settles q := by
  unfold discardNonDispatchableEvent JobLogs.createSystemLog utcNow
  simp only [Prog.bind_eq, Prog.pure_eq, Prog.bind_assoc, Prog.ret_bind]
  refine .perform trivial (fun _ _ => ?_) fun _ _ _ => rfl
  refine .perform rfl (fun _ _ => ?_) fun _ _ _ => rfl
  refine .perform trivial (fun _ _ => ?_) fun _ _ _ => rfl
  exact settle_obeys (hid ▸ hq)

/-- The `try` body of `_process_claimed_event_once`. -/
theorem stageAndPublish_obeys {e : Uuid} {ev : OutboxEvent} {job : StoredJobDTO}
    {m : DispatchOutboxMessage} (hid : ev.id = e) (hm : modelValidate ev.payload = .ok m)
    (hme : m.eventId = e) :
    publishing.Obeys (stageAndPublish ev job) (fun r q => match r with
      | .ok false => q.event = some e ∧ q.sent = true
      | .ok true => q = {}
      | .error _ => q.Over) { event := some e } := by
  have hsend : ∀ q : Stage, q.event = some e → q.sent = false →
      publishing.Obeys ((call (.publishDispatch m)).bind fun _ => .ret false)
      (fun r q => match r with
        | .ok false => q.event = some e ∧ q.sent = true
        | .ok true => q = {}
        | .error _ => q.Over) q := fun q hq hsent =>
    .perform ⟨hme ▸ hq, hsent⟩ (fun _ _ => ⟨hq, rfl⟩) fun _ _ _ => rfl
  unfold stageAndPublish
  rw [hm]
  show publishing.Obeys (if job.status = .pending then _ else _) _ _
  split
  · refine .perform trivial (fun _ _ => ?_) fun _ _ _ => rfl
    refine .perform rfl (fun queued _ => ?_) fun _ _ _ => rfl
    cases queued with
    | true => exact hsend _ rfl rfl
    | false =>
      refine (discard_obeys rfl hid).mono fun r q hr => ?_
      cases r with
      | ok returned =>
        obtain ⟨rfl, rfl⟩ := hr
        rfl
      | error e => exact hr
  · exact hsend _ rfl rfl

theorem recordFailureAfterRollback_obeys {ev : OutboxEvent} {error : String} {q : Stage}
    (hq : q.Over) : publishing.Obeys ((recordFailureAfterRollback ev error).bind fun _ => .ret true)
      (fun _ q => q.Over) q := by
  unfold recordFailureAfterRollback Outbox.recordPublishFailure utcNow
  simp only [Prog.bind_eq, Prog.pure_eq, Prog.bind_assoc, Prog.ret_bind]
  refine .perform hq (fun _ _ => ?_) fun _ _ => nofun
  refine .perform trivial (fun _ _ => ?_) fun _ _ _ => rfl
  refine .bind ((publishing_withUow ?_).mono fun r q' hr => ?_)
  · refine .perform trivial (fun _ _ => ?_) fun _ _ _ => rfl
    refine .perform rfl (fun _ _ => ?_) fun _ _ _ => rfl
    rw [← Prog.bind_ret CloudJob.commit]
    exact .perform nofun (fun _ _ => nofun) fun _ _ => nofun
  · cases r with
    | ok a =>
      obtain rfl : q' = {} := hr
      exact nofun
    | error e => exact hr

theorem processLocked_obeys {e : Uuid} {ev : OutboxEvent} {job : StoredJobDTO}
    {m : DispatchOutboxMessage} (hid : ev.id = e) (hm : modelValidate ev.payload = .ok m)
    (hme : m.eventId = e) :
    publishing.Obeys (processLocked ev job) (fun _ q => q.Over) { event := some e } := by
  unfold processLocked utcNow
  simp only [Prog.bind_eq, Prog.pure_eq]
  split
  · refine .bind (.attempt ((stageAndPublish_obeys hid hm hme).mono fun r q hr => ?_))
    cases r with
    | error e => exact recordFailureAfterRollback_obeys hr
    | ok returned =>
      cases returned with
      | true =>
        obtain rfl : q = {} := hr
        exact nofun
      | false =>
        refine .perform trivial (fun _ _ => ?_) fun _ _ _ => rfl
        exact (settle_obeys (hid ▸ hr.1)).mono fun _ _ hr => hr.over
  · exact (discard_obeys rfl hid).mono fun _ _ hr => hr.over

theorem processClaimedEventOnce_obeys (e : Uuid) :
    publishing.Obeys (processClaimedEventOnce e) Rests {} := by
  unfold processClaimedEventOnce Outbox.getByIdForUpdateUnpublished Jobs.getByIdForUpdate
  simp only [Prog.bind_eq, Prog.pure_eq, Prog.bind_assoc, Prog.ret_bind]
  refine publishing_withUow (.perform trivial (fun found hfound => ?_) fun _ _ _ => rfl)
  cases found with
  | none => exact nofun
  | some ev =>
    obtain ⟨hid, m, hm, hme⟩ := hfound
    refine .perform trivial (fun job _ => ?_) fun _ _ _ => rfl
    cases job with
    | none =>
      refine .perform trivial (fun _ _ => ?_) fun _ _ _ => rfl
      exact (settle_obeys (by rw [hid])).mono fun _ _ hr => hr.over
    | some job => exact processLocked_obeys hid hm hme

theorem processAll_obeys : ∀ ids : List Uuid, publishing.Obeys (processAll ids) Rests {}
  | [] => rfl
  | e :: rest => by
    refine .bind ((processClaimedEventOnce_obeys e).mono fun r q hr => ?_)
    cases r with
    | error e => exact hr
    | ok processed =>
      obtain rfl : q = {} := hr
      refine .bind ((processAll_obeys rest).mono fun r q hr => ?_)
      cases r with
      | error e => exact hr
      | ok count => exact hr

theorem publishDueBatchOnce_obeys (settings : Settings) :
    publishing.Obeys (publishDueBatchOnce settings) Rests {} := by
  unfold publishDueBatchOnce utcNow Outbox.claimDueBatch
  simp only [Prog.bind_eq, Prog.pure_eq]
  refine .perform trivial (fun _ _ => .bind ?_) fun _ _ _ => rfl
  refine (publishing_withUow ?_).mono fun r q hr => ?_
  · exact .perform trivial (fun _ _ => nofun) fun _ _ _ => rfl
  · cases r with
    | error e => exact hr
    | ok ids =>
      obtain rfl : q = {} := hr
      exact processAll_obeys ids

end OutboxPublisher

/-! ## What the text says is what is so -/

/-- The notes about a process fit its transaction: `held` is the event it has in hand, by the count,
and `q` is where it stands in its text. -/
structure Fits (s : Shared) (p : Pid) (held : Option Uuid) (q : Stage) : Prop where
  locked : ∀ e, held = some e → s.locks (.event e) = some p
  present : ∀ e, held = some e → s.core.db.event e ≠ none
  event : ∀ e, q.event = some e → held = some e
  failed : ∀ e, held = some e → q.event = some e ∨ q.failed = true
  marked : ∀ e, held = some e → q.marked = true →
    ∃ now, .updateEvent e (.markPublished now) ∈ s.staged p

section Fits

variable {s s' : Shared} {held : Option Uuid} {q : Stage}

theorem Fits.none (hq : q.event = Option.none) : Fits s p Option.none q :=
  ⟨nofun, nofun, fun e he => (by rw [hq] at he; cases he), nofun, nofun⟩

theorem Fits.rely (h : Fits s p held q) (hr : Rely p s s') : Fits s' p held q where
  locked e he := (hr.locks _).mpr (h.locked e he)
  present e he := by
    rw [hr.keeps.event (h.locked e he)]
    exact h.present e he
  event := h.event
  failed := h.failed
  marked e he hm := by
    rw [hr.staged]
    exact h.marked e he hm

/-- A call that leaves the transaction open takes nothing from it. -/
theorem CallEffect.open {o : Op} (h : CallEffect p o s s') (ho : o.ends = false) :
    (∀ r, s.locks r = some p → s'.locks r = some p) ∧ (∀ st ∈ s.staged p, st ∈ s'.staged p) ∧
      s'.core.db = s.core.db := by
  have hlock : ∀ rs r, s.locks r = some p → (s.lock p rs).locks r = some p := fun rs r hr => by
    simp only [Shared.lock]
    split
    · rfl
    · exact hr
  cases h with
  | locked rs => exact ⟨hlock rs, fun _ hst => hst, rfl⟩
  | wrote st =>
    refine ⟨hlock st.rows, fun st' hst' => ?_, rfl⟩
    show st' ∈ Function.update s.staged p (s.staged p ++ [st]) p
    rw [Function.update_self]
    exact List.mem_append_left _ hst'
  | released hends => rw [ho] at hends; cases hends
  | committed heq => rw [heq] at ho; cases ho
  | committedAnswered heq => rw [heq] at ho; cases ho
  | left heq => rw [heq] at ho; cases ho
  | _ => exact ⟨fun _ hr => hr, fun _ hst => hst, rfl⟩

/-- A call that leaves the transaction open, the event in hand and the marks as they are. -/
theorem Fits.call {o : Op} {q' : Stage} (h : Fits s p held q) (he : CallEffect p o s s')
    (ho : o.ends = false) (hevent : q'.event = q.event) (hmarked : q'.marked = q.marked)
    (hfailed : q.failed = true → q'.failed = true) : Fits s' p held q' := by
  obtain ⟨hlocks, hstaged, hdb⟩ := he.open ho
  refine ⟨fun e hh => hlocks _ (h.locked e hh), fun e hh => hdb ▸ h.present e hh, fun e hq => ?_,
    fun e hh => ?_, fun e hh hm => ?_⟩
  · exact h.event e (hevent ▸ hq)
  · rw [hevent]
    exact (h.failed e hh).imp_right hfailed
  · obtain ⟨now, hmem⟩ := h.marked e hh (hmarked ▸ hm)
    exact ⟨now, hstaged _ hmem⟩

/-- How `SELECT … FOR UPDATE SKIP LOCKED` of an unpublished event goes in a new transaction. -/
theorem exec_lockUnpublishedEvent {e : Uuid} {ch : Choice} {r : Except Exc (Option OutboxEvent)}
    (hst : s.staged p = [])
    (he : s.exec P.reads p (.lockUnpublishedEvent e) ch = some (r, s')) :
    (s' = s ∧ (r = .ok Option.none ∨ ∃ exc, r = .error exc)) ∨
    ∃ ev, s' = s.lock p [.event e] ∧ r = .ok (some ev) ∧ s.core.db.event e = some ev := by
  cases ch with
  | answer =>
    have hview : s.view p = s.core.db := by rw [Shared.view, hst, Db.applyAll_nil]
    simp only [Shared.exec, Shared.answer, hview] at he
    split at he
    · cases he
      exact .inl ⟨rfl, .inl rfl⟩
    · rename_i ev hev
      rw [Option.filter_eq_some_iff] at hev
      split at he
      · cases he
        exact .inr ⟨ev, rfl, rfl, hev.1⟩
      · cases he
        exact .inl ⟨rfl, .inl rfl⟩
  | fails text =>
    cases he
    exact .inl ⟨rfl, .inr ⟨_, rfl⟩⟩
  | _ => cases he

/-- A write that is answered `true` is staged. -/
theorem exec_write_true {st : Stmt} {ch : Choice}
    (he : s.exec P.reads p (.write st) ch = some (.ok true, s')) : st ∈ s'.staged p := by
  cases ch with
  | answer =>
    simp only [Shared.exec, Shared.answer] at he
    split at he
    · cases he
    · cases he
    · split at he
      · cases he
        show st ∈ Function.update s.staged p (s.staged p ++ [st]) p
        rw [Function.update_self]
        exact List.mem_append_right _ (List.mem_singleton_self _)
      · cases he
  | _ => cases he

/-- An update of an event that is there is not answered `false`. -/
theorem exec_markPublished {e : Uuid} {now : Datetime} {ch : Choice} {done : Bool}
    (hev : s.core.db.event e ≠ Option.none)
    (he : s.exec P.reads p (.write (.updateEvent e (.markPublished now))) ch = some
      (.ok done, s')) :
    done = true := by
  cases ch with
  | answer =>
    obtain ⟨ev, hev⟩ := Option.ne_none_iff_exists'.mp hev
    obtain ⟨ev', hev', -⟩ := event_applyAll_stays (l := s.staged p) hev
    have houtcome : (Stmt.updateEvent e (.markPublished now)).outcome (s.view p) = .matched := by
      simp [Stmt.outcome, Shared.view, hev', EventStmt.update, CloudJob.markPublished]
    simp only [Shared.exec, Shared.answer, houtcome] at he
    split at he
    · cases he
      rfl
    · cases he
  | _ => cases he

/-- **One call of a process.** -/
theorem Fits.own {o : Op} {ch : Choice} {r : Except Exc o.Ret} (h : Fits s p held q)
    (hpre : Pre P p o s) (he : s.exec P.reads p o ch = some (r, s')) :
    Fits s' p (heldAfter s' p ch held o) (publishing.next q o r) := by
  have heff := exec_effect he
  cases o with
  | lockUnpublishedEvent e =>
    obtain ⟨hst, hnothing, -⟩ := hpre
    obtain rfl : held = Option.none := by
      cases held with
      | none => rfl
      | some e' => exact absurd (h.locked e' rfl) (hnothing _)
    rcases exec_lockUnpublishedEvent hst he with ⟨rfl, hr⟩ | ⟨ev, rfl, rfl, hev⟩
    · simp only [heldAfter, if_neg (hnothing (.event e))]
      rcases hr with rfl | ⟨exc, rfl⟩
      · exact h
      · exact h.call heff rfl rfl rfl fun _ => rfl
    · have hlock : (s.lock p [.event e]).locks (.event e) = some p := by simp [Shared.lock]
      simp only [heldAfter, if_pos hlock]
      refine ⟨fun e' he' => ?_, fun e' he' => ?_, fun e' he' => he', fun e' he' => .inl he', nofun⟩
      · cases he'
        exact hlock
      · cases he'
        show s.core.db.event e ≠ Option.none
        rw [hev]
        nofun
  | write st =>
    have hplain : ∀ q' : Stage, q'.event = q.event → q'.marked = q.marked →
        (q.failed = true → q'.failed = true) → Fits s' p held q' := fun q' => h.call heff rfl
    cases r with
    | error exc => cases st with
      | updateEvent e est => cases est <;> exact hplain _ rfl rfl fun _ => rfl
      | _ => exact hplain _ rfl rfl fun _ => rfl
    | ok done => cases st with
      | updateEvent e est =>
        cases est with
        | recordPublishFailure => exact hplain _ rfl rfl id
        | markPublished now =>
          cases done with
          | false => exact hplain _ rfl rfl id
          | true =>
            obtain ⟨hlocks, hstaged, hdb⟩ := heff.open rfl
            refine ⟨fun e' hh => hlocks _ (h.locked e' hh), fun e' hh => hdb ▸ h.present e' hh,
              h.event, h.failed, fun e' hh hm => ?_⟩
            simp only [Bool.or_eq_true, beq_iff_eq] at hm
            rcases hm with hm | hm
            · obtain ⟨now', hmem⟩ := h.marked e' hh hm
              exact ⟨now', hstaged _ hmem⟩
            · obtain rfl : e = e' := Option.some.inj ((h.event e hm).symm.trans hh)
              exact ⟨now, exec_write_true he⟩
      | _ => exact hplain _ rfl rfl id
  | commit =>
    cases ch with
    | fails text =>
      cases he
      exact ⟨h.locked, h.present, nofun, fun _ _ => .inr rfl, h.marked⟩
    | _ => cases r <;> exact .none rfl
  | rollback => exact .none rfl
  | aexit raised => exact .none rfl
  | _ =>
    cases r with
    | ok a => exact h.call heff rfl rfl rfl id
    | error exc => exact h.call heff rfl rfl rfl fun _ => rfl

/-- The answers are among those the text of the publisher was checked for. -/
theorem Fits.may {o : Op} {ch : Choice} {r : Except Exc o.Ret} (h : Fits s p held q) (hi : Inv P s)
    (hpre : Pre P p o s) (he : s.exec P.reads p o ch = some (r, s')) : publishing.may q o r := by
  cases o with
  | lockUnpublishedEvent e =>
    rcases exec_lockUnpublishedEvent hpre.1 he with ⟨-, rfl | ⟨exc, rfl⟩⟩ | ⟨ev, -, rfl, hev⟩
    · trivial
    · trivial
    · obtain ⟨m, hm, -, hme⟩ := hi.lawful.wellFormed.payload hev
      exact ⟨Db.event_id hev, m, by rw [hm]; rfl, hme⟩
  | write st => cases st with
    | updateEvent e est => cases est with
      | markPublished now => cases r with
        | ok done => exact fun hq => exec_markPublished (h.present e (h.event e hq)) he
        | error exc => trivial
      | recordPublishFailure => trivial
    | _ => trivial
  | _ => trivial

end Fits

/-! ## Published for good -/

/-- Event `e` is published. -/
def Db.Settled (db : Db) (e : Uuid) : Prop := ∃ ev, db.event e = some ev ∧ ev.publishedAt ≠ none

theorem Db.Settled.apply {db : Db} {e : Uuid} (h : db.Settled e) (st : Stmt) :
    (Stmt.apply db st).Settled e := by
  obtain ⟨ev, hev, hp⟩ := h
  cases st with
  | updateEvent e' est =>
    rw [Db.Settled, event_updateEvent]
    split
    · rename_i hee
      subst hee
      rw [hev]
      refine ⟨_, rfl, ?_⟩
      unfold EventUpdate.run
      split
      · cases est with
        | markPublished now => nofun
        | recordPublishFailure error next now => exact hp
      · exact hp
    · exact ⟨ev, hev, hp⟩
  | insertEvent new =>
    by_cases hid : e = new.id
    · subst hid
      rw [insertEvent_of_isSome (by rw [hev]; nofun)]
      exact ⟨ev, hev, hp⟩
    · rw [Db.Settled, event_insertEvent_of_ne hid]
      exact ⟨ev, hev, hp⟩
  | _ => exact ⟨ev, hev, hp⟩

/-- A transaction that marks an event settles it. -/
theorem settled_applyAll {db : Db} {l : List Stmt} {e : Uuid} {now : Datetime}
    (hev : db.event e ≠ none)
    (hm : .updateEvent e (.markPublished now) ∈ l) : (db.applyAll l).Settled e := by
  obtain ⟨l₁, l₂, rfl⟩ := List.append_of_mem hm
  obtain ⟨ev, hev⟩ := Option.ne_none_iff_exists'.mp hev
  obtain ⟨ev', hev', -⟩ := event_applyAll_stays (l := l₁) hev
  rw [Db.applyAll_append, Db.applyAll_cons]
  refine Db.applyAll_keeps (R := fun db => db.Settled e) (fun st _ _ h => h.apply st) ?_
  rw [Db.Settled, event_updateEvent, if_pos rfl, hev']
  exact ⟨_, rfl, nofun⟩

/-- **An event that is published stays as it is.** -/
theorem Reachable.settled_step (h : Reachable P w) {mv : Move (machine P)}
    (hs : (machine P).step mv w = some w') {e : Uuid} {ev : OutboxEvent}
    (he : w.shared.core.db.event e = some ev) (hp : ev.publishedAt ≠ none) :
    w'.shared.core.db.event e = some ev := by
  rcases h.commits hs with hq | ⟨p, ch, op, k, rfl, -, htxn, hdb, -⟩
  · rw [Db.event, hq.outbox]
    exact he
  · rw [hdb]
    exact htxn.induct (p := p) (R := fun c => c.db.event e = some ev)
      (fun c l hc ha => (ha.eventEffect p).settled hc hp) he

theorem Reachable.settled (h : Reachable P w) (h' : (machine P).Reach w w') {e : Uuid}
    {ev : OutboxEvent} (he : w.shared.core.db.event e = some ev) (hp : ev.publishedAt ≠ none) :
    w'.shared.core.db.event e = some ev :=
  (h'.invariant (I := fun w => Reachable P w ∧ w.shared.core.db.event e = some ev) ⟨h, he⟩
    fun _ _ _ hi _ hs => ⟨hi.1.step hs, hi.1.settled_step hs hi.2 hp⟩).2

/-! ## The bound -/

def Call.isPublisher (c : Call) : Prop := ∃ settings, c = .publishDueBatchOnce settings

/-- A publisher has event `e` in hand and has published it. -/
def InFlight (w : World (machine P)) (t : Tally) (σ : Pid → Stage) (e : Uuid) : Prop :=
  ∃ p c, w.shared.calls p = some c ∧ c.isPublisher ∧ t.processing p = some e ∧ (σ p).sent = true

/-- The notes of a run. A publish that is not made up for by a rollback has settled its event, or is
in flight. -/
structure Counted (w : World (machine P)) (t : Tally) (σ : Pid → Stage) : Prop where
  reachable : Reachable P w
  follows : publishing.Follows Call.isPublisher w σ
  idle : ∀ p, w.procs p = none → t.processing p = none
  fits : ∀ p, Fits w.shared p (t.processing p) (σ p)
  bound : ∀ e, t.published e ≤ t.rolledBack e ∨ (t.published e ≤ t.rolledBack e + 1 ∧
    (w.shared.core.db.Settled e ∨ InFlight w t σ e))

section Step

variable {t : Tally} {σ : Pid → Stage} {mv : Move (machine P)}

theorem tally_run {ch : Choice} {c : Call} {o : Op} {k : Except Exc o.Ret → Code Outcome}
    (hp : w.procs p = some (c, .call o k)) :
    tally w (.run p ch) w' t = t.call w'.shared p ch o := by
  simp only [tally, hp]

theorem tally_other {q : Pid} (hs : (machine P).step mv w = some w') (hq : mv.pid ≠ some q) :
    (tally w mv w' t).processing q = t.processing q := by
  rcases Machine.step_cases hs with ⟨p, c, s, rfl, -, -, -⟩ |
    ⟨p, ch, c, o, k, r, s, rfl, hp, -, -⟩ |
    ⟨p, c, prog, rfl, -, -⟩ | ⟨e, s, rfl, -, -⟩
  · rfl
  · rw [tally_run hp]
    exact Function.update_of_ne (fun heq => hq (congrArg some heq.symm)) ..
  · exact Function.update_of_ne (fun heq => hq (congrArg some heq.symm)) ..
  · rfl

/-- What a process had in hand is no more than it had published, until the transaction is over. -/
theorem sent_next {o : Op} {q : Stage} {r : Except Exc o.Ret} (ho : o.ends = false)
    (hlock : ∀ e, o ≠ .lockUnpublishedEvent e) (hs : q.sent = true) :
    (publishing.next q o r).sent = true := by
  cases o with
  | lockUnpublishedEvent e => exact absurd rfl (hlock e)
  | commit => cases ho
  | rollback => cases ho
  | aexit => cases ho
  | publishDispatch m => cases r <;> rfl
  | write st => cases st with
    | updateEvent e est => cases est with
      | markPublished now => cases r with
        | ok done => cases done <;> exact hs
        | error exc => exact hs
      | recordPublishFailure => cases r <;> exact hs
    | _ => cases r <;> exact hs
  | _ => cases r <;> exact hs

theorem Settled.kept {e : Uuid} (h : Reachable P w) (hs : (machine P).step mv w = some w')
    (he : w.shared.core.db.Settled e) : w'.shared.core.db.Settled e := by
  obtain ⟨ev, hev, hp⟩ := he
  exact ⟨ev, h.settled_step hs hev hp, hp⟩

/-- The bound after a step that counts nothing. -/
theorem Counted.bound_same (h : Counted w t σ) (hs : (machine P).step mv w = some w') {t' : Tally}
    {σ' : Pid → Stage} {e : Uuid} (hpub : t'.published e = t.published e)
    (hback : t'.rolledBack e = t.rolledBack e)
    (hkeep : ∀ p, t.processing p = some e → (σ p).sent = true →
      (t'.processing p = some e ∧ (σ' p).sent = true) ∨ w'.shared.core.db.Settled e) :
    t'.published e ≤ t'.rolledBack e ∨ (t'.published e ≤ t'.rolledBack e + 1 ∧
      (w'.shared.core.db.Settled e ∨ InFlight w' t' σ' e)) := by
  rw [hpub, hback]
  refine (h.bound e).imp_right fun hb => ⟨hb.1, ?_⟩
  rcases hb.2 with hset | ⟨p, c, hc, hp, hproc, hsent⟩
  · exact .inl (Settled.kept h.reachable hs hset)
  · rcases hkeep p hproc hsent with hk | hset
    · exact .inr ⟨p, c, h.reachable.calls_stay hs hc, hp, hk⟩
    · exact .inl hset

/-- The bound after a transaction ended without a commit. -/
theorem Counted.bound_rollBack (h : Counted w t σ)
    (hs : (machine P).step mv w = some w') {t' : Tally}
    {σ' : Pid → Stage} (hpub : t'.published = t.published)
    (hback : t'.rolledBack = (t.processing p).elim t.rolledBack (countOne t.rolledBack))
    (hother : ∀ q, q ≠ p → t'.processing q = t.processing q ∧ σ' q = σ q) (e : Uuid) :
    t'.published e ≤ t'.rolledBack e ∨ (t'.published e ≤ t'.rolledBack e + 1 ∧
      (w'.shared.core.db.Settled e ∨ InFlight w' t' σ' e)) := by
  by_cases hproc : t.processing p = some e
  · -- this one made up for whatever was in flight
    refine .inl ?_
    have hb : t.published e ≤ t.rolledBack e + 1 := by
      rcases h.bound e with hb | hb <;> omega
    rw [hpub, hback, hproc]
    simpa [countOne] using hb
  · refine h.bound_same hs (by rw [hpub]) ?_ fun q hq hsent => .inl ?_
    · rw [hback]
      cases hp : t.processing p with
      | none => rfl
      | some e' =>
        refine Function.update_of_ne ?_ ..
        rintro rfl
        exact hproc hp
    · have hqp : q ≠ p := by
        rintro rfl
        exact hproc hq
      rw [(hother q hqp).1, (hother q hqp).2]
      exact ⟨hq, hsent⟩

/-- The bound after a call that leaves the transaction open and is not a publish. -/
theorem Counted.bound_open (h : Counted w t σ) {ch : Choice} {c : Call} {o : Op}
    {k : Except Exc o.Ret → Code Outcome} {r : Except Exc o.Ret}
    (hs : (machine P).step (.run p ch) w = some w') (hp : w.procs p = some (c, .call o k))
    (hpub : (t.call w'.shared p ch o).published = t.published)
    (hback : (t.call w'.shared p ch o).rolledBack = t.rolledBack)
    (hown : ∀ e, t.processing p = some e → (σ p).sent = true →
      heldAfter w'.shared p ch (t.processing p) o = some e ∧
      (publishing.next (σ p) o r).sent = true)
    (e : Uuid) : (t.call w'.shared p ch o).published e ≤ (t.call w'.shared p ch o).rolledBack e ∨
      ((t.call w'.shared p ch o).published e ≤ (t.call w'.shared p ch o).rolledBack e + 1 ∧
        (w'.shared.core.db.Settled e ∨ InFlight w' (t.call w'.shared p ch o)
          (Function.update σ p (publishing.next (σ p) o r)) e)) := by
  refine h.bound_same hs (by rw [hpub]) (by rw [hback]) fun q hq hsent => .inl ?_
  by_cases hqp : q = p
  · subst hqp
    rw [Tally.processing_call, Function.update_self]
    exact hown e hq hsent
  · rw [Tally.processing_call_other _ _ _ _ hqp, Function.update_of_ne hqp]
    exact ⟨hq, hsent⟩

/-- A publish: nothing of its event is in flight, and it is not settled. -/
theorem Counted.bound_publish (h : Counted w t σ) {ch : Choice} {c : Call}
    {m : DispatchOutboxMessage} {k : Except Exc Unit → Code Outcome} {r : Except Exc Unit}
    (hs : (machine P).step (.run p ch) w = some w')
    (hp : w.procs p = some (c, .call (.publishDispatch m) k)) (e : Uuid) :
    (t.call w'.shared p ch (.publishDispatch m)).published e ≤ t.rolledBack e ∨
      ((t.call w'.shared p ch (.publishDispatch m)).published e ≤ t.rolledBack e + 1 ∧
        (w'.shared.core.db.Settled e ∨ InFlight w' (t.call w'.shared p ch (.publishDispatch m))
          (Function.update σ p (publishing.next (σ p) (.publishDispatch m) r)) e)) := by
  obtain ⟨⟨settings, hcall⟩, -, -, -, ev, hev, hun⟩ := h.reachable.pre hp
  have hc : c = .publishDueBatchOnce settings :=
    Option.some.inj ((h.reachable.calls hp).symm.trans hcall)
  obtain ⟨hevent, hsent⟩ := h.follows.ok hp ⟨settings, hc⟩
  have hproc : t.processing p = some m.eventId := (h.fits p).event _ hevent
  have hheld : (t.call w'.shared p ch (.publishDispatch m)).processing = t.processing :=
    Function.update_eq_self p t.processing
  by_cases hee : e = m.eventId
  · subst hee
    have hle : t.published m.eventId ≤ t.rolledBack m.eventId := by
      rcases h.bound m.eventId with hb | ⟨-, ⟨ev', hev', hset⟩ | ⟨q, _, _, _, hq, hqs⟩⟩
      · exact hb
      · rw [hev] at hev'
        cases hev'
        exact absurd hun hset
      · -- whoever has it in hand holds the event
        have hlp := (h.fits p).locked _ hproc
        rw [(h.fits q).locked _ hq, Option.some.injEq] at hlp
        subst hlp
        rw [hsent] at hqs
        cases hqs
    refine .inr ⟨?_, .inr ⟨p, c, h.reachable.calls_stay hs (h.reachable.calls hp),
      ⟨settings, hc⟩, ?_, ?_⟩⟩
    · show countOne t.published m.eventId m.eventId ≤ _
      rw [countOne, Function.update_self]
      omega
    · rw [hheld]
      exact hproc
    · rw [Function.update_self]
      cases r <;> rfl
  · have hpub : (t.call w'.shared p ch (.publishDispatch m)).published e = t.published e :=
      Function.update_of_ne hee ..
    refine h.bound_same hs hpub rfl fun q hq hqs => .inl ?_
    rw [hheld]
    refine ⟨hq, ?_⟩
    by_cases hqp : q = p
    · subst hqp
      rw [Function.update_self]
      exact sent_next rfl nofun hqs
    · rw [Function.update_of_ne hqp]
      exact hqs

/-- A commit: what was published is marked. -/
theorem Counted.bound_commit (h : Counted w t σ) {ch : Choice} {c : Call}
    {k : Except Exc Unit → Code Outcome} {r : Except Exc Unit}
    (hs : (machine P).step (.run p ch) w = some w') (hp : w.procs p = some (c, .call .commit k))
    (he : w.shared.exec P.reads p .commit ch = some (r, w'.shared)) (e : Uuid) :
    t.published e ≤ t.rolledBack e ∨ (t.published e ≤ t.rolledBack e + 1 ∧
      (w'.shared.core.db.Settled e ∨ InFlight w' (t.call w'.shared p ch .commit)
        (Function.update σ p (publishing.next (σ p) .commit r)) e)) := by
  have hdone : (∃ text, ch = .fails text) ∨
      w'.shared.core.db = w.shared.core.db.applyAll (w.shared.staged p) := by
    cases ch with
    | fails text => exact .inl ⟨text, rfl⟩
    | answer =>
      simp only [Shared.exec, Shared.answer, Option.some.injEq, Prod.mk.injEq] at he
      rw [← he.2]
      exact .inr (Core.spend_same _ _).1
    | failsAfter text =>
      simp only [Shared.exec, Shared.lateFail, Option.some.injEq, Prod.mk.injEq] at he
      rw [← he.2]
      exact .inr rfl
    | _ => cases he
  rcases hdone with ⟨text, rfl⟩ | hdb
  · refine h.bound_open hs hp rfl rfl (fun e' hproc hsent => ⟨hproc, ?_⟩) e
    simp only [Shared.exec, Op.failure, Option.map_some, Option.some.injEq, Prod.mk.injEq] at he
    obtain ⟨rfl, -⟩ := he
    exact hsent
  · rcases h.bound e with hb | ⟨hb, hset | ⟨q, cq, hcq, hpub, hq, hqs⟩⟩
    · exact .inl hb
    · exact .inr ⟨hb, .inl (Settled.kept h.reachable hs hset)⟩
    · by_cases hqp : q = p
      · subst hqp
        obtain rfl : cq = c := Option.some.inj (hcq.symm.trans (h.reachable.calls hp))
        obtain ⟨now, hmem⟩ := (h.fits q).marked e hq (h.follows.ok hp hpub hqs)
        exact .inr ⟨hb, .inl (hdb ▸ settled_applyAll ((h.fits q).present e hq) hmem)⟩
      · refine .inr ⟨hb, .inr ⟨q, cq, h.reachable.calls_stay hs hcq, hpub, ?_, ?_⟩⟩
        · rw [Tally.processing_call_other _ _ _ _ hqp]
          exact hq
        · rw [Function.update_of_ne hqp]
          exact hqs

theorem Counted.bound_run (h : Counted w t σ) {ch : Choice} {c : Call} {o : Op}
    {k : Except Exc o.Ret → Code Outcome} {r : Except Exc o.Ret}
    (hs : (machine P).step (.run p ch) w = some w') (hp : w.procs p = some (c, .call o k))
    (he : w.shared.exec P.reads p o ch = some (r, w'.shared)) (e : Uuid) :
    (t.call w'.shared p ch o).published e ≤ (t.call w'.shared p ch o).rolledBack e ∨
      ((t.call w'.shared p ch o).published e ≤ (t.call w'.shared p ch o).rolledBack e + 1 ∧
        (w'.shared.core.db.Settled e ∨ InFlight w' (t.call w'.shared p ch o)
          (Function.update σ p (publishing.next (σ p) o r)) e)) := by
  have hother : ∀ q, q ≠ p → (t.call w'.shared p ch o).processing q = t.processing q ∧
      Function.update σ p (publishing.next (σ p) o r) q = σ q := fun q hq =>
    ⟨t.processing_call_other _ _ _ hq, Function.update_of_ne hq ..⟩
  cases o with
  | publishDispatch m => exact h.bound_publish hs hp e
  | commit => exact h.bound_commit hs hp he e
  | rollback =>
    have hpub : (t.call w'.shared p ch .rollback).published = t.published := rfl
    exact h.bound_rollBack hs hpub rfl hother e
  | aexit raised =>
    have hpub : (t.call w'.shared p ch (.aexit raised)).published = t.published := rfl
    exact h.bound_rollBack hs hpub rfl hother e
  | lockUnpublishedEvent e' =>
    refine h.bound_open hs hp rfl rfl (fun e₁ hproc _ => ?_) e
    exact absurd ((h.fits p).locked e₁ hproc) ((h.reachable.pre hp).2.1 _)
  | _ => exact h.bound_open hs hp rfl rfl (fun e' hproc hsent =>
      ⟨hproc, sent_next rfl nofun hsent⟩) e

/-- **One step of a run.** -/
theorem Counted.step (h : Counted w t σ) (hs : (machine P).step mv w = some w') :
    Counted w' (tally w mv w' t) (publishing.track {} w mv w' σ) where
  reachable := h.reachable.step hs
  follows := by
    refine h.follows.step (fun c hc => ?_) hs fun p ch c o k r s _ hp _ he => ?_
    · obtain ⟨settings, rfl⟩ := hc
      refine .bind ((OutboxPublisher.publishDueBatchOnce_obeys settings).mono fun r q _ => ?_)
      cases r <;> trivial
    · exact (h.fits p).may h.reachable.inv (h.reachable.pre hp) he
  idle p hp := by
    obtain ⟨hnone, hstart⟩ := Machine.step_procs_none hs hp
    rw [tally_other hs]
    · exact h.idle p hnone
    · intro hpid
      rcases Machine.step_cases hs with ⟨q, c, s, rfl, -, -, -⟩ |
        ⟨q, ch, c, o, k, r, s, rfl, hq, -, -⟩ |
        ⟨q, c, prog, rfl, hq, -⟩ | ⟨e, s, rfl, -, -⟩
      · cases hpid
        exact hstart c rfl
      · cases hpid
        rw [hnone] at hq
        cases hq
      · cases hpid
        rw [hnone] at hq
        cases hq
      · cases hpid
  fits q := by
    by_cases hpid : mv.pid = some q
    · rcases Machine.step_cases hs with ⟨p, c, s, rfl, hp, hst, rfl⟩ |
        ⟨p, ch, c, o, k, r, s, rfl, hp, he, rfl⟩ | ⟨p, c, prog, rfl, hp, rfl⟩ | ⟨e, s, rfl, -, -⟩
      · cases hpid
        rw [show (tally w (.start q c) _ t).processing q = none from h.idle q hp]
        exact .none (by simp [Discipline.track])
      · cases hpid
        rw [tally_run hp, Tally.processing_call, Discipline.track_run hp he, Function.update_self]
        exact (h.fits q).own (h.reachable.pre hp) he
      · cases hpid
        rw [show (tally w (.crash q) _ t).processing q = none from Function.update_self ..]
        exact .none (by simp [Discipline.track])
      · cases hpid
    · rw [tally_other hs hpid, Discipline.track_other hpid]
      exact (h.fits q).rely (h.reachable.rely hs hpid)
  bound := by
    rcases Machine.step_cases hs with ⟨p, c, s, rfl, hp, -, rfl⟩ |
      ⟨p, ch, c, o, k, r, s, rfl, hp, he, rfl⟩ | ⟨p, c, prog, rfl, hp, rfl⟩ | ⟨e, s, rfl, -, rfl⟩
    · refine fun e => h.bound_same hs rfl rfl fun q hq hsent => .inl ⟨hq, ?_⟩
      rw [Discipline.track_other]
      · exact hsent
      · rintro hpid
        cases hpid
        rw [h.idle p hp] at hq
        cases hq
    · rw [tally_run hp, Discipline.track_run hp he]
      exact h.bound_run hs hp he
    · have hpub : (t.rollBack p).published = t.published := rfl
      refine fun e => h.bound_rollBack hs hpub rfl (fun q hq => ⟨Function.update_of_ne hq .., ?_⟩) e
      exact Discipline.track_other fun hpid => hq (Option.some.inj hpid).symm
    · exact fun e' => h.bound_same hs rfl rfl fun q hq hsent => .inl ⟨hq, hsent⟩

end Step

/-! ## Runs without failures -/

/-- No call fails, and no process dies. -/
def isRegular : Move (machine P) → Bool
  | .run _ (.fails _) | .run _ (.failsAfter _) | .crash _ => false
  | _ => true

/-- The calls of a publisher do not raise by themselves. -/
theorem exec_regular {s s' : Shared} {q : Stage} {o : Op} {ch : Choice} {r : Except Exc o.Ret}
    (hok : publishing.ok q o) (hch : isRegular (.run p ch : Move (machine P)) = true)
    (he : s.exec P.reads p o ch = some (r, s')) : ∃ a, r = .ok a := by
  cases ch with
  | fails text => cases hch
  | failsAfter text => cases hch
  | answer =>
    simp only [Shared.exec] at he
    cases o with
    | write st =>
      simp only [Shared.answer] at he
      split at he
      · cases he
        exact ⟨_, rfl⟩
      · rename_i orig ho
        cases st with
        | insertJob job => cases hok
        | insertEvent ev => cases hok
        | insertLog log => cases ho
        | updateJob j jst =>
          simp only [Stmt.outcome] at ho
          split at ho <;> cases ho
        | updateEvent e est =>
          simp only [Stmt.outcome] at ho
          split at ho <;> cases ho
      · split at he
        · cases he
          exact ⟨_, rfl⟩
        · cases he
    | selectJobForUpdate id owner =>
      simp only [Shared.answer] at he
      split at he
      · cases he
        exact ⟨_, rfl⟩
      · split at he
        · cases he
          exact ⟨_, rfl⟩
        · cases he
    | lockUnpublishedEvent e =>
      simp only [Shared.answer] at he
      split at he
      · cases he
        exact ⟨_, rfl⟩
      · split at he <;> cases he <;> exact ⟨_, rfl⟩
    | now => cases he
    | lockDueEvents now limit => cases he; exact ⟨_, rfl⟩
    | aenter => cases he; exact ⟨_, rfl⟩
    | commit => cases he; exact ⟨_, rfl⟩
    | rollback => cases he; exact ⟨_, rfl⟩
    | aexit raised => cases he; exact ⟨_, rfl⟩
    | publishDispatch m => cases he; exact ⟨_, rfl⟩
    | _ => cases hok
  | time t =>
    cases o with
    | now =>
      simp only [Shared.exec] at he
      split at he
      · cases he
        exact ⟨_, rfl⟩
      · cases he
    | _ => cases he
  | uuid u =>
    cases o with
    | uuid4 => cases hok
    | _ => cases he
  | reservation r =>
    cases o with
    | reserve => cases hok
    | _ => cases he

theorem failed_next {q : Stage} {o : Op} {a : o.Ret} (hq : q.failed = false) :
    (publishing.next q o (.ok a)).failed = false := by
  cases o with
  | lockUnpublishedEvent e => cases a <;> first | rfl | exact hq
  | write st => cases st with
    | updateEvent e est => cases est with
      | markPublished now => cases a <;> exact hq
      | recordPublishFailure => exact hq
    | _ => exact hq
  | commit => rfl
  | rollback => rfl
  | aexit raised => rfl
  | _ => exact hq

/-- In a run without failures no publisher has met one, and nothing was rolled back. -/
structure Unfailing (w : World (machine P)) (t : Tally) (σ : Pid → Stage) : Prop where
  publisher : ∀ p e, t.processing p = some e → ∃ c, w.shared.calls p = some c ∧ c.isPublisher
  failed : ∀ p c, w.shared.calls p = some c → c.isPublisher → (σ p).failed = false
  rolledBack : ∀ e, t.rolledBack e = 0

theorem Unfailing.step {t : Tally} {σ : Pid → Stage} {mv : Move (machine P)} (h : Unfailing w t σ)
    (hc : Counted w t σ) (hreg : isRegular mv = true) (hs : (machine P).step mv w = some w') :
    Unfailing w' (tally w mv w' t) (publishing.track {} w mv w' σ) := by
  have hcalls : ∀ p c, w.shared.calls p = some c → w'.shared.calls p = some c :=
    fun p c => hc.reachable.calls_stay hs
  rcases Machine.step_cases hs with ⟨p, c, s, rfl, hp, hst, rfl⟩ |
    ⟨p, ch, c, o, k, r, s, rfl, hp, he, rfl⟩ | ⟨p, c, prog, rfl, -, rfl⟩ | ⟨e, s, rfl, he, rfl⟩
  · refine ⟨fun q e hq => ?_, fun q c' hq hpub => ?_, h.rolledBack⟩
    · obtain ⟨c', hc', hpub⟩ := h.publisher q e hq
      exact ⟨c', hcalls q c' hc', hpub⟩
    · by_cases hqp : q = p
      · subst hqp
        simp [Discipline.track]
      · rcases step_calls hs with ⟨p', c₁, hmv, -, hupd⟩ | ⟨hno, -⟩
        · cases hmv
          rw [hupd, Function.update_of_ne hqp] at hq
          rw [Discipline.track_other]
          · exact h.failed q c' hq hpub
          · rintro hpid
            cases hpid
            exact hqp rfl
        · exact absurd rfl (hno p c)
  · have hcall := hc.reachable.calls hp
    have hsame : s.calls = w.shared.calls := (exec_effect he).calls
    -- a publisher has met no failure, so it has nothing in hand where it leaves a transaction
    have hnext : c.isPublisher → (publishing.next (σ p) o r).failed = false := by
      intro hpub
      obtain ⟨a, rfl⟩ := exec_regular (hc.follows.ok hp hpub) hreg he
      exact failed_next (h.failed p c hcall hpub)
    have hheld : o = .rollback ∨ (∃ raised, o = .aexit raised) → t.processing p = none := by
      intro ho
      cases hproc : t.processing p with
      | none => rfl
      | some e =>
        obtain ⟨c', hc', hpub⟩ := h.publisher p e hproc
        obtain rfl : c' = c := Option.some.inj (hc'.symm.trans hcall)
        have hnot := h.failed p c' hcall hpub
        have hev := ((hc.fits p).failed e hproc).resolve_right
          (by rw [hnot]; exact Bool.false_ne_true)
        have hok := hc.follows.ok hp hpub
        rcases ho with rfl | ⟨raised, rfl⟩
        · exact absurd (hok (by rw [hev]; rfl)) (by rw [hnot]; exact Bool.false_ne_true)
        · exact absurd (hok (by rw [hev]; rfl)) (by rw [hnot]; exact Bool.false_ne_true)
    rw [tally_run hp, Discipline.track_run hp he]
    refine ⟨fun q e hq => ?_, fun q c' hq hpub => ?_, fun e => ?_⟩
    · by_cases hqp : q = p
      · subst hqp
        rw [Tally.processing_call] at hq
        have hold : t.processing q = some e → ∃ c', s.calls q = some c' ∧ c'.isPublisher :=
            fun hq => by
          rw [hsame]
          exact h.publisher q e hq
        cases o with
        | lockUnpublishedEvent e' =>
          obtain ⟨-, -, settings, hpub⟩ := hc.reachable.pre hp
          exact ⟨_, hsame ▸ hpub, settings, rfl⟩
        | commit => cases ch <;> first | exact hold hq | cases hq
        | rollback => cases hq
        | aexit raised => cases hq
        | _ => exact hold hq
      · rw [Tally.processing_call_other _ _ _ _ hqp] at hq
        obtain ⟨c', hc', hpub⟩ := h.publisher q e hq
        exact ⟨c', hsame ▸ hc', hpub⟩
    · rw [show s.calls q = w.shared.calls q from congrFun hsame q] at hq
      by_cases hqp : q = p
      · subst hqp
        obtain rfl : c' = c := Option.some.inj (hq.symm.trans hcall)
        rw [Function.update_self]
        exact hnext hpub
      · rw [Function.update_of_ne hqp]
        exact h.failed q c' hq hpub
    · cases o with
      | rollback =>
        rw [Tally.call, hheld (.inl rfl)]
        exact h.rolledBack e
      | aexit raised =>
        rw [Tally.call, hheld (.inr ⟨raised, rfl⟩)]
        exact h.rolledBack e
      | _ => exact h.rolledBack e
  · cases hreg
  · obtain ⟨c', -, rfl⟩ := Option.map_eq_some_iff.mp he
    exact ⟨h.publisher, h.failed, h.rolledBack⟩

/-- **Publishers never duplicate a settled event.** No two publishes of one event are in progress at
once; an event that is published stays as it is and is not published again; and an event is
published at most once more than a transaction that had it in hand was rolled back. In a run without
failures it is published at most once. -/
theorem publishers_never_duplicate {ok : World (machine P) → Move (machine P) → Prop} {t : Tally}
    (h : (machine P).ObservedBy ok tally (World.init P) Tally.zero w t) :
    (∀ p q c c' m m' k k', p ≠ q → w.procs p = some (c, .call (.publishDispatch m) k) →
      w.procs q = some (c', .call (.publishDispatch m') k') → m.eventId ≠ m'.eventId) ∧
    (∀ e ev, w.shared.core.db.event e = some ev → ev.publishedAt ≠ none →
      ∀ w', (machine P).Reach w w' → w'.shared.core.db.event e = some ev ∧
        ∀ p c m k, w'.procs p = some (c, .call (.publishDispatch m) k) → m.eventId ≠ e) ∧
    (∀ e, t.published e ≤ 1 + t.rolledBack e) ∧
    ((∀ w mv, ok w mv → isRegular mv = true) → ∀ e, t.published e ≤ 1) := by
  obtain ⟨σ, hσ⟩ := h.also (publishing.track {}) fun _ => {}
  have hstart : Counted (World.init P) Tally.zero fun _ => {} :=
    ⟨.refl, nofun, fun _ _ => rfl, fun _ => .none rfl, fun _ => .inl le_rfl⟩
  have hc : Counted w t σ := hσ.invariant (I := fun w g => Counted w g.1 g.2) hstart
    fun w₁ w₂ g m hi _ hs => hi.step hs
  have hbound : ∀ e, t.published e ≤ 1 + t.rolledBack e := fun e => by
    rcases hc.bound e with hb | ⟨hb, -⟩ <;> omega
  refine ⟨fun p q c c' m m' k k' hpq hp hq heq => ?_, fun e ev hev hpub w' hw' => ?_, hbound,
    fun hreg e => ?_⟩
  · obtain ⟨-, -, hlp, -⟩ := hc.reachable.pre hp
    obtain ⟨-, -, hlq, -⟩ := hc.reachable.pre hq
    rw [heq, hlq] at hlp
    exact hpq (Option.some.inj hlp).symm
  · have hev' := hc.reachable.settled hw' hev hpub
    refine ⟨hev', fun p c m k hp heq => ?_⟩
    obtain ⟨-, -, -, -, ev₁, hev₁, hun⟩ := Reachable.pre (hc.reachable.trans hw') hp
    rw [heq, hev'] at hev₁
    cases hev₁
    exact hpub hun
  · have hu : Unfailing w t σ := (hσ.invariant
      (I := fun w g => Counted w g.1 g.2 ∧ Unfailing w g.1 g.2)
      ⟨hstart, nofun, nofun, fun _ => rfl⟩ fun w₁ w₂ g m hi hok hs =>
        ⟨hi.1.step hs, hi.2.step hi.1 (hreg _ _ hok) hs⟩).2
    have hb := hbound e
    rw [hu.rolledBack e] at hb
    exact hb

/-- In the run below the one event is published once, and committed. -/
theorem publishers_never_duplicate_once : ∃ (w : World (machine .default)) (t : Tally),
    t.published 11 = 1 ∧
    (∃ ev, w.shared.core.db.event 11 = some ev ∧ ev.publishedAt ≠ none) ∧
    (∀ p q c c' m m' k k', p ≠ q → w.procs p = some (c, .call (.publishDispatch m) k) →
      w.procs q = some (c', .call (.publishDispatch m') k') → m.eventId ≠ m'.eventId) ∧
    (∀ e ev, w.shared.core.db.event e = some ev → ev.publishedAt ≠ none →
      ∀ w', (machine .default).Reach w w' → w'.shared.core.db.event e = some ev ∧
        ∀ p c m k, w'.procs p = some (c, .call (.publishDispatch m) k) → m.eventId ≠ e) ∧
    (∀ e, t.published e ≤ 1 + t.rolledBack e) ∧ ∀ e, t.published e ≤ 1 := by
  have hrun : ((machine .default).observe tally claimedMoves (World.init .default) Tally.zero).map
      (fun x => (x.2.published 11, (x.1.shared.core.db.event 11).map OutboxEvent.publishedAt)) =
      some (1, some (some 0)) := by
    decide +kernel
  simp only [Option.map_eq_some_iff, Prod.mk.injEq] at hrun
  obtain ⟨⟨w, t⟩, hw, hone, ev, hev, hpub⟩ := hrun
  have hreg : ∀ m ∈ (claimedMoves : List (Move (machine .default))), isRegular m = true := by
    decide
  have hobs : (machine .default).ObservedBy (fun _ m => isRegular m = true) tally
      (World.init .default) Tally.zero w t := .of_observe hreg hw
  obtain ⟨hone', hsettled, hbound, honce⟩ := publishers_never_duplicate hobs
  exact ⟨w, t, hone, ⟨ev, hev, by rw [hpub]; nofun⟩, hone', hsettled, hbound,
    honce fun _ _ ht => ht⟩

end CloudJob
