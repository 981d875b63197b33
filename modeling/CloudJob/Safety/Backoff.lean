import CloudJob.Safety.Confirmation

/-!
# `Safety/Backoff.lean` — whether a publisher waits

An event is due when a batch is listed; when it is taken up from the batch it is only asked whether
it is still unpublished. In between, the attempt of another publisher may have failed, and then the
event is published before the time that failure has put into `available_at`.

`backlog` follows, for every process, what is left of the batch it listed, the last failure that was
recorded of each of its events since, and which events it has taken up before that failure's backoff
was over. Every other event is published when it is due. -/

set_option autoImplicit false

namespace CloudJob

open Lib

variable {P : Params} {w w' : World (machine P)} {p : Pid}

/-! ## The batch, by the text of the publisher -/

/-- The last clock reading, whether the transaction has written nothing so far, and what is left of
the batch. -/
structure Agenda where
  read : Option Datetime := none
  fresh : Bool := false
  listed : List Uuid := []

/-- A batch is listed first of all, as of a clock reading, and events are taken up from the batch
only. -/
@[reducible] def batching : Discipline sig where
  State := Agenda
  ok q o := match o with
    | .lockDueEvents now _ => q.read = some now ∧ q.fresh = true
    | .lockUnpublishedEvent e => e ∈ q.listed
    | _ => True
  may _ _ _ := True
  next q o r := match o, r with
    | .now, .ok t => { q with read := some t }
    | .aenter, .ok _ => { q with fresh := true }
    | .write _, _ => { q with fresh := false }
    | .lockDueEvents _ _, .ok rows => { q with listed := rows.map OutboxEvent.id }
    | .lockUnpublishedEvent e, _ => { q with listed := q.listed.erase e }
    | _, _ => q

/-- The call does not touch the batch. -/
def Op.sparesBatch : Op → Bool
  | .lockDueEvents _ _ => false
  | .lockUnpublishedEvent _ => false
  | _ => true

/-- The program does not touch the batch. -/
abbrev SparesBatch {α : Type} (m : Code α) : Prop :=
    Prog.Asks (S := sig) (fun o => Op.sparesBatch o = true) m

theorem SparesBatch.obeys {α : Type} {m : Code α} {q : Agenda} {l : List Uuid} (h : SparesBatch m)
    (hq : q.listed = l) : batching.Obeys m (fun _ q => q.listed = l) q := by
  refine Discipline.Obeys.of_asks (D := batching) (I := fun q => Agenda.listed q = l)
    (h.mono fun o ho q hq => ?_) hq
  cases o with
  | lockDueEvents now limit => cases ho
  | lockUnpublishedEvent e => cases ho
  | now => exact ⟨trivial, fun r => by cases r <;> exact hq⟩
  | aenter => exact ⟨trivial, fun r => by cases r <;> exact hq⟩
  | _ => exact ⟨trivial, fun _ => hq⟩

/-- What is left of the batch, unless an exception is on its way. -/
def Leaves {α : Type} (l : List Uuid) : Except Exc α → Agenda → Prop
  | .ok _, q => q.listed = l
  | .error _, _ => True

theorem batching_withUow {α : Type} {body : Code α} {q : Agenda} {l : List Uuid}
    (h : batching.Obeys body (Leaves l) { q with fresh := true }) :
    batching.Obeys (withUow body) (Leaves l) q := by
  refine .perform trivial (fun _ _ => .bind (.attempt (h.mono fun r q' hr => ?_))) fun _ _ =>
    trivial
  cases r with
  | ok a => exact .perform trivial (fun _ _ => hr) fun _ _ => trivial
  | error e => exact .perform trivial (fun _ _ => trivial) fun _ _ => trivial

namespace OutboxPublisher

theorem settle_sparesBatch (e : Uuid) (now : Datetime) :
    SparesBatch ((Outbox.markPublished e now).bind fun _ =>
      CloudJob.commit.bind fun _ => .ret true) :=
  .bind (.bind (.perform rfl) fun _ => trivial) fun _ => .bind (.perform rfl) fun _ => trivial

theorem processLocked_sparesBatch (ev : OutboxEvent) (job : StoredJobDTO) :
    SparesBatch (processLocked ev job) := by
  have hdiscard : SparesBatch ((discardNonDispatchableEvent ev job.status).bind fun _ =>
      CloudJob.commit.bind fun _ => .ret true) :=
    .bind (.bind (.bind (.perform rfl) fun _ => .bind (.perform rfl) fun _ => trivial) fun _ =>
      .bind (.perform rfl) fun _ => .bind (.perform rfl) fun _ => trivial) fun _ =>
      .bind (.perform rfl) fun _ => trivial
  have hstage : SparesBatch (stageAndPublish ev job) := by
    refine .bind (.ofExcept _) fun m => .ite (.bind (.perform rfl) fun now =>
      .bind (.perform rfl) fun queued => .ite ?_ hdiscard) ?_
    · exact .bind (.perform rfl) fun _ => trivial
    · exact .bind (.perform rfl) fun _ => trivial
  refine .ite (.bind hstage.attempt fun outcome => ?_) hdiscard
  cases outcome with
  | error e =>
    refine .bind (.bind (.perform rfl) fun _ => .bind (.perform rfl) fun _ =>
      .bind (.perform rfl) fun _ => .bind (.attempt ?_) fun r => ?_) fun _ => trivial
    · exact .bind (.bind (.perform rfl) fun _ => .bind (.perform rfl) fun _ => trivial) fun _ =>
        .perform rfl
    · cases r <;> exact .bind (.perform rfl) fun _ => trivial
  | ok returned => cases returned with
    | true => trivial
    | false => exact .bind (.perform rfl) fun now => settle_sparesBatch _ now

theorem processClaimedEventOnce_batching (e : Uuid) {rest : List Uuid} {q : Agenda}
    (hq : q.listed = e :: rest) : batching.Obeys (processClaimedEventOnce e) (Leaves rest) q := by
  have herase : q.listed.erase e = rest := by rw [hq, List.erase_cons_head]
  unfold processClaimedEventOnce Outbox.getByIdForUpdateUnpublished Jobs.getByIdForUpdate
  simp only [Prog.bind_eq, Prog.pure_eq, Prog.bind_assoc, Prog.ret_bind]
  refine batching_withUow (.perform ?_ (fun found _ => ?_) fun _ _ => trivial)
  · show e ∈ q.listed
    rw [hq]
    exact List.mem_cons_self
  · cases found with
    | none => exact herase
    | some ev =>
      refine (SparesBatch.obeys (l := rest) ?_ herase).mono fun r q' hr => ?_
      · refine .bind (.perform rfl) fun job => ?_
        cases job with
        | none => exact .bind (.perform rfl) fun _ => settle_sparesBatch _ _
        | some job => exact processLocked_sparesBatch ev _
      · cases r with
        | ok a => exact hr
        | error exc => trivial

theorem processAll_batching : ∀ (ids : List Uuid) {q : Agenda}, q.listed = ids →
    batching.Obeys (processAll ids) (fun _ _ => True) q
  | [], _, _ => trivial
  | e :: rest, q, hq => by
    refine .bind ((processClaimedEventOnce_batching e hq).mono fun r q' hr => ?_)
    cases r with
    | error e => trivial
    | ok processed =>
      refine .bind ((processAll_batching rest hr).mono fun r q'' _ => ?_)
      cases r <;> trivial

theorem publishDueBatchOnce_batching (settings : Settings) :
    batching.Obeys (publishDueBatchOnce settings) (fun _ _ => True) {} := by
  unfold publishDueBatchOnce utcNow Outbox.claimDueBatch
  simp only [Prog.bind_eq, Prog.pure_eq]
  refine .perform trivial (fun now _ => .bind (.perform trivial (fun _ _ => .bind (.attempt
    (.perform ⟨rfl, rfl⟩ (fun rows _ => ?_) fun _ _ => ?_))) fun _ _ => trivial)) fun _ _ => trivial
  · exact .perform trivial (fun _ _ => processAll_batching _ rfl) fun _ _ => trivial
  · exact .perform trivial (fun _ _ => trivial) fun _ _ => trivial

end OutboxPublisher

/-! ## Failures that are recorded -/

/-- When event `e` is available again by a statement. -/
def Stmt.failureOf (e : Uuid) : Stmt → Option Datetime
  | .updateEvent id (.recordPublishFailure _ next _) => if id = e then some next else none
  | _ => none

/-- When event `e` is available again by the last failure among the statements. -/
def lastFailure (e : Uuid) : List Stmt → Option Datetime
  | [] => none
  | st :: l => (lastFailure e l).or (st.failureOf e)

/-- The event is available again at this time, or is published; without a time, nothing has changed
it. -/
def OutboxEvent.Retimed (ev : OutboxEvent) : Option Datetime → OutboxEvent → Prop
  | none, ev' => ev'.availableAt = ev.availableAt
  | some next, ev' => ev'.availableAt = next ∨ ev'.publishedAt ≠ none

theorem event_applyAll_lastFailure {e : Uuid} {l : List Stmt} {db : Db} {ev : OutboxEvent}
    (hev : db.event e = some ev) : ∃ ev', (db.applyAll l).event e = some ev' ∧
      (ev.publishedAt ≠ none → ev'.publishedAt ≠ none) ∧ ev.Retimed (lastFailure e l) ev' := by
  induction l generalizing db ev with
  | nil => exact ⟨ev, hev, id, rfl⟩
  | cons st l ih =>
    have hstep : ∃ ev₁, (st.apply db).event e = some ev₁ ∧
        (ev.publishedAt ≠ none → ev₁.publishedAt ≠ none) ∧
        ev.Retimed (st.failureOf e) ev₁ := by
      cases st with
      | updateEvent e' est =>
        rw [event_updateEvent]
        by_cases hid : e = e'
        · subst hid
          rw [if_pos rfl, hev]
          cases est with
          | markPublished now => exact ⟨_, rfl, fun _ => Option.some_ne_none _, rfl⟩
          | recordPublishFailure error next now =>
            refine ⟨_, rfl, fun hp => ?_, ?_⟩
            · simp [EventStmt.update, recordPublishFailure, EventUpdate.run, hp]
            · rw [Stmt.failureOf, if_pos rfl]
              cases hp : ev.publishedAt with
              | none => exact .inl (by simp [EventStmt.update, recordPublishFailure,
                  EventUpdate.run, hp])
              | some t => exact .inr (by simp [EventStmt.update, recordPublishFailure,
                  EventUpdate.run, hp])
        · rw [if_neg hid]
          have hnone : (Stmt.updateEvent e' est).failureOf e = none := by
            cases est with
            | markPublished now => rfl
            | recordPublishFailure error next now => exact if_neg fun h => hid h.symm
          rw [hnone]
          exact ⟨ev, hev, id, rfl⟩
      | insertEvent new =>
        by_cases hid : e = new.id
        · subst hid
          rw [insertEvent_of_isSome (by rw [hev]; exact Option.some_ne_none _)]
          exact ⟨ev, hev, id, rfl⟩
        · rw [event_insertEvent_of_ne hid]
          exact ⟨ev, hev, id, rfl⟩
      | _ => exact ⟨ev, hev, id, rfl⟩
    obtain ⟨ev₁, hev₁, hp₁, hat₁⟩ := hstep
    obtain ⟨ev', hev', hp', hat'⟩ := ih hev₁
    refine ⟨ev', hev', fun hp => hp' (hp₁ hp), ?_⟩
    simp only [lastFailure]
    cases hl : lastFailure e l with
    | some next =>
      rw [hl] at hat'
      exact hat'
    | none =>
      rw [hl] at hat'
      rw [Option.none_or]
      cases hst : st.failureOf e with
      | none =>
        rw [hst] at hat₁
        exact hat'.trans hat₁
      | some next =>
        rw [hst] at hat₁
        exact hat₁.imp hat'.trans hp'

/-! ## What is left of the batches -/

/-- What is left of the batch of each process, the last failure recorded of each event while it was
in the batch, and the event it works on, where that was taken up before the backoff of the failure
was over. -/
structure Backlog where
  agenda : Pid → Agenda
  overtaken : Pid → Uuid → Option Datetime
  early : Pid → List Uuid

def Backlog.empty : Backlog := ⟨fun _ => {}, fun _ _ => none, fun _ => []⟩

/-- A transaction of the statements `l` is committed. -/
def Backlog.commit (b : Backlog) (l : List Stmt) : Pid → Uuid → Option Datetime := fun q e =>
  if e ∈ (b.agenda q).listed then (lastFailure e l).or (b.overtaken q e) else b.overtaken q e

/-- Process `p` takes up event `e`. -/
def Backlog.takeUp (b : Backlog) (now : Datetime) (p : Pid) (e : Uuid) : Pid → List Uuid :=
  if (b.overtaken p e).any (now < ·) then Function.update b.early p (e :: b.early p) else b.early

/-- Process `p` calls `o`. With the transaction ends the work on the event. -/
def Backlog.call (b : Backlog) (now : Datetime) (p : Pid) : Op → Pid → List Uuid
  | .lockUnpublishedEvent e => b.takeUp now p e
  | o => if o.ends then Function.update b.early p [] else b.early

/-- Written down along a run. -/
def backlog : Notes (machine P) Backlog := fun w m w' b =>
  { agenda := batching.track {} w m w' b.agenda
    overtaken := match m with
      | .run _ (.fails _) => b.overtaken
      | .run p _ => match w.procs p with
        | some (_, .call .commit _) => b.commit (w.shared.staged p)
        | some (_, .call (.lockDueEvents _ _) _) => Function.update b.overtaken p fun _ => none
        | _ => b.overtaken
      | _ => b.overtaken
    early := match m with
      | .run p _ => match w.procs p with
        | some (_, .call o _) => b.call w.shared.core.clock p o
        | _ => b.early
      | .start p _ => Function.update b.early p []
      | .crash p => Function.update b.early p []
      | .env _ => b.early }

theorem backlog_run {b : Backlog} {ch : Choice} {c : Call} {o : Op}
    {k : Except Exc o.Ret → Code Outcome}
    (hp : w.procs p = some (c, .call o k)) (hch : ∀ text, ch ≠ .fails text) :
    backlog w (.run p ch) w' b =
      { agenda := batching.track {} w (.run p ch) w' b.agenda
        overtaken := match o with
          | .commit => b.commit (w.shared.staged p)
          | .lockDueEvents _ _ => Function.update b.overtaken p fun _ => none
          | _ => b.overtaken
        early := b.call w.shared.core.clock p o } := by
  cases ch with
  | fails text => exact absurd rfl (hch text)
  | _ => cases o <;> simp only [backlog, hp]

theorem Backlog.takeUp_mono {b : Backlog} {now : Datetime} {q : Pid} {e x : Uuid}
    (h : x ∈ b.early p) : x ∈ b.takeUp now q e p := by
  unfold Backlog.takeUp
  split
  · by_cases hpq : p = q
    · subst hpq
      rw [Function.update_self]
      exact List.mem_cons_of_mem _ h
    · rw [Function.update_of_ne hpq]
      exact h
  · exact h

theorem Backlog.call_of_ne {b : Backlog} {now : Datetime} {q : Pid} (h : p ≠ q) (o : Op) :
    b.call now q o p = b.early p := by
  have hcleared : Function.update b.early q [] p = b.early p := Function.update_of_ne h _ _
  cases o with
  | lockUnpublishedEvent e =>
    show b.takeUp now q e p = b.early p
    unfold Backlog.takeUp
    split
    · exact Function.update_of_ne h _ _
    · rfl
  | commit => exact hcleared
  | rollback => exact hcleared
  | aexit raised => exact hcleared
  | _ => rfl

/-- What a process has taken up early stays so while its transaction goes on. -/
theorem early_call {b : Backlog} {ch : Choice} {c : Call} {o : Op}
    {k : Except Exc o.Ret → Code Outcome}
    {x : Uuid} (hp : w.procs p = some (c, .call o k)) (ho : o.ends = false) (h : x ∈ b.early p) :
    x ∈ (backlog w (.run p ch) w' b).early p := by
  simp only [backlog, hp]
  cases o with
  | lockUnpublishedEvent e => exact b.takeUp_mono h
  | commit => cases ho
  | rollback => cases ho
  | aexit raised => cases ho
  | _ => exact h

theorem early_other {b : Backlog} {mv : Move (machine P)} (hpid : mv.pid ≠ some p) :
    (backlog w mv w' b).early p = b.early p := by
  cases mv with
  | run q ch =>
    have hne : p ≠ q := fun heq => hpid (congrArg some heq.symm)
    cases hq : w.procs q with
    | none => simp only [backlog, hq]
    | some y =>
      obtain ⟨c, prog⟩ := y
      cases prog with
      | call o k =>
        simp only [backlog, hq]
        exact Backlog.call_of_ne hne o
      | _ => simp only [backlog, hq]
  | start q c => exact Function.update_of_ne (fun heq => hpid (congrArg some heq.symm)) _ _
  | crash q => exact Function.update_of_ne (fun heq => hpid (congrArg some heq.symm)) _ _
  | env a => rfl

/-- A listed event is available, or would have been but for the last failure recorded of it
since. -/
def Backlog.Due (b : Backlog) (c : Core) (p : Pid) (e : Uuid) : Prop :=
  ∃ ev, c.db.event e = some ev ∧ match b.overtaken p e with
    | none => ev.availableAt ≤ c.clock
    | some next => ev.availableAt = next ∨ ev.publishedAt ≠ none

section Due

variable {b b' : Backlog} {c c' : Core} {e : Uuid}

theorem Backlog.Due.keep (h : b.Due c p e) (hev : c'.db.event e = c.db.event e)
    (hclock : c.clock ≤ c'.clock) (hsame : b'.overtaken p e = b.overtaken p e) : b'.Due c' p e := by
  obtain ⟨ev, hfound, hat⟩ := h
  refine ⟨ev, hev.trans hfound, ?_⟩
  rw [hsame]
  cases ho : b.overtaken p e with
  | none =>
    rw [ho] at hat
    exact Int.le_trans hat hclock
  | some next =>
    rw [ho] at hat
    exact hat

/-- A commit. -/
theorem Backlog.Due.commit {l : List Stmt} (h : b.Due c p e) (hmem : e ∈ (b.agenda p).listed)
    (hdb : c'.db = c.db.applyAll l) (hclock : c.clock ≤ c'.clock)
    (hnew : b'.overtaken = b.commit l) : b'.Due c' p e := by
  obtain ⟨ev, hfound, hat⟩ := h
  obtain ⟨ev', hev', hp, hat'⟩ := event_applyAll_lastFailure (l := l) hfound
  refine ⟨ev', by rw [hdb, hev'], ?_⟩
  rw [hnew, Backlog.commit, if_pos hmem]
  cases hl : lastFailure e l with
  | some next =>
    rw [hl] at hat'
    exact hat'
  | none =>
    rw [hl] at hat'
    rw [Option.none_or]
    cases ho : b.overtaken p e with
    | none =>
      rw [ho] at hat
      rw [hat']
      exact Int.le_trans hat hclock
    | some next =>
      rw [ho] at hat
      exact hat.imp hat'.trans hp

/-- What is due stays due, while it is listed. -/
theorem Backlog.Due.step {mv : Move (machine P)} (h : b.Due w.shared.core p e)
    (hmem : e ∈ (b.agenda p).listed) (hs : (machine P).step mv w = some w')
    (hlist : ∀ ch c now limit k, mv = .run p ch →
      w.procs p ≠ some (c, .call (.lockDueEvents now limit) k)) :
    (backlog w mv w' b).Due w'.shared.core p e := by
  rcases Machine.step_cases hs with ⟨r, c, s, rfl, -, hst, rfl⟩ |
    ⟨r, ch, c, o, k, a, s, rfl, hp, he, rfl⟩ |
    ⟨r, c, prog, rfl, -, rfl⟩ | ⟨a, s, rfl, he, rfl⟩
  · simp only [Shared.start] at hst
    split at hst
    · cases hst
      exact h.keep rfl le_rfl rfl
    · cases hst
  · have hclock := (exec_effect he).extends.clock
    have hdb := exec_ledger he
    have hsame : (Ledger.call {} (w.shared.staged r) ch o).done = [] →
        s.core.db = w.shared.core.db :=
      fun hnone => hdb.trans (by rw [hnone, Db.applyAll_nil])
    by_cases hfails : ∃ text, ch = .fails text
    · obtain ⟨text, rfl⟩ := hfails
      exact h.keep (congrArg (Db.event · e) (hsame (by cases o <;> rfl))) hclock rfl
    · rw [show (backlog w (.run r ch) ⟨s, Function.update w.procs r (some (c, k a))⟩ b) = _ from
        backlog_run hp fun text heq => hfails ⟨text, heq⟩]
      cases o with
      | commit =>
        refine h.commit (l := w.shared.staged r) hmem (hdb.trans ?_) hclock rfl
        cases ch with
        | fails text => exact absurd ⟨text, rfl⟩ hfails
        | _ => rfl
      | lockDueEvents now limit =>
        have hne : p ≠ r := by
          rintro rfl
          exact hlist ch c now limit k rfl hp
        exact h.keep (congrArg (Db.event · e) (hsame rfl)) hclock
          (congrFun (Function.update_of_ne hne _ _) e)
      | _ => exact h.keep (congrArg (Db.event · e) (hsame rfl)) hclock rfl
  · exact h.keep rfl le_rfl rfl
  · obtain ⟨c', hc', rfl⟩ := Option.map_eq_some_iff.mp he
    refine h.keep ?_ (Core.env_clock hc') rfl
    show c'.db.outbox.find? e = _
    rw [(Core.env_cases hc').2.1]
    rfl

end Due

/-! ## The calls of a publisher -/

section Own

variable {s s' : Shared} {q : Agenda} {o : Op} {ch : Choice}

/-- What is listed is due at the reading the batch is listed as of. -/
theorem exec_lockDueEvents {now : Datetime} {limit : Nat} {r : Except Exc (List OutboxEvent)}
    (hst : s.staged p = []) (he : s.exec P.reads p (.lockDueEvents now limit) ch = some (r, s')) :
    (∃ text exc, ch = .fails text ∧ r = .error exc) ∨ ∃ rows, ch = .answer ∧ r = .ok rows ∧
      ∀ ev ∈ rows, s.core.db.event ev.id = some ev ∧ ev.availableAt ≤ now := by
  cases ch with
  | answer =>
    have hview : s.view p = s.core.db := by rw [Shared.view, hst, Db.applyAll_nil]
    simp only [Shared.exec, Shared.answer, hview] at he
    cases he
    refine .inr ⟨_, rfl, rfl, fun ev hev => ?_⟩
    obtain ⟨hfound, hdue⟩ := Db.mem_dueEvents (List.mem_filter.mp (List.mem_of_mem_take hev)).1
    simp only [OutboxEvent.isDue, Bool.and_eq_true, decide_eq_true_eq] at hdue
    exact ⟨hfound, hdue.2⟩
  | fails text =>
    cases he
    exact .inl ⟨text, _, rfl, rfl⟩
  | _ => cases he

theorem exec_lockUnpublishedEvent_open {e : Uuid} {ev : OutboxEvent}
    (he : s.exec P.reads p (.lockUnpublishedEvent e) ch = some (.ok (some ev), s')) :
    ch = .answer ∧ ev.publishedAt = none := by
  cases ch with
  | answer =>
    simp only [Shared.exec, Shared.answer] at he
    split at he
    · cases he
    · rename_i ev' hev
      rw [Option.filter_eq_some_iff] at hev
      split at he
      · cases he
        exact ⟨rfl, by simpa using hev.2⟩
      · cases he
  | _ => cases he

/-- A clock that is right. -/
theorem exec_now {t : Datetime} (hclock : ∀ t r, P.reads t r = true → r = t)
    (he : s.exec P.reads p .now ch = some (.ok t, s')) : t = s.core.clock := by
  cases ch with
  | time t' =>
    simp only [Shared.exec] at he
    split at he
    · rename_i hreads
      cases he
      exact hclock _ _ hreads
    · cases he
  | _ => cases he

theorem reading_next {r : Except Exc o.Ret} {t : Datetime}
    (hclock : ∀ t r, P.reads t r = true → r = t)
    (he : s.exec P.reads p o ch = some (r, s')) (hq : ∀ t, q.read = some t → t ≤ s.core.clock)
    (ht : Agenda.read (batching.next q o r) = some t) : t ≤ s.core.clock := by
  cases o with
  | now => cases r with
    | error e => exact hq t ht
    | ok t' =>
      obtain rfl : t' = t := Option.some.inj ht
      exact le_of_eq (exec_now hclock he)
  | aenter => cases r <;> exact hq t ht
  | lockDueEvents => cases r <;> exact hq t ht
  | _ => exact hq t ht

theorem fresh_next {r : Except Exc o.Ret} (hpre : Pre P p o s)
    (he : s.exec P.reads p o ch = some (r, s'))
    (hq : q.fresh = true → s.staged p = []) (hfresh : Agenda.fresh (batching.next q o r) = true) :
    s'.staged p = [] := by
  have heff := exec_effect he
  have hkeep : o.ends = false → (∀ st, o ≠ .write st) → s.staged p = [] → s'.staged p = [] :=
    fun ho hw hst => (heff.staged_self ho hw).trans hst
  rcases heff.staged_cases with heq | heq | ⟨st, rfl, heq⟩
  · rw [heq]
    cases o with
    | aenter => exact hpre.1
    | write st => cases hfresh
    | now => cases r <;> exact hq hfresh
    | lockDueEvents => cases r <;> exact hq hfresh
    | _ => exact hq hfresh
  · exact heq
  · cases hfresh

/-- The event a publisher has in hand is the one it has just taken up, or it had it before and its
transaction goes on. -/
theorem event_next {r : Except Exc o.Ret} {q : Stage} {e : Uuid}
    (h : (publishing.next q o r).event = some e) :
    (∃ ev, o = .lockUnpublishedEvent e ∧ HEq r (.ok (some ev) : Except Exc (Option OutboxEvent))) ∨
      (q.event = some e ∧ o.ends = false) := by
  cases o with
  | lockUnpublishedEvent e' => cases r with
    | error exc => exact .inr ⟨h, rfl⟩
    | ok found => cases found with
      | none => exact .inr ⟨h, rfl⟩
      | some ev =>
        cases h
        exact .inl ⟨ev, rfl, .rfl⟩
  | commit => cases r <;> cases h
  | rollback => cases r <;> cases h
  | aexit raised => cases r <;> cases h
  | write st => cases st with
    | updateEvent e' est => cases est with
      | markPublished now => cases r with
        | error exc => exact .inr ⟨h, rfl⟩
        | ok done => cases done <;> exact .inr ⟨h, rfl⟩
      | recordPublishFailure => cases r <;> exact .inr ⟨h, rfl⟩
    | _ => cases r <;> exact .inr ⟨h, rfl⟩
  | _ => cases r <;> exact .inr ⟨h, rfl⟩

end Own

/-! ## Along a run -/

/-- The notes of a run with clocks that are right. -/
structure Punctual (w : World (machine P)) (t : Tally) (σ : Pid → Stage) (b : Backlog) : Prop where
  counted : Counted w t σ
  follows : batching.Follows Call.isPublisher w b.agenda
  abstains : ∀ p c prog, w.procs p = some (c, prog) → ¬ c.isPublisher → Abstains prog
  reading : ∀ p t, (b.agenda p).read = some t → t ≤ w.shared.core.clock
  fresh : ∀ p, (b.agenda p).fresh = true → w.shared.staged p = []
  listed : ∀ p e, e ∈ (b.agenda p).listed → b.Due w.shared.core p e
  ready : ∀ p e, (σ p).event = some e → e ∈ b.early p ∨
    ∃ ev, w.shared.core.db.event e = some ev ∧ ev.availableAt ≤ w.shared.core.clock

section Step

variable {t : Tally} {σ : Pid → Stage} {b : Backlog} {mv : Move (machine P)} {e : Uuid}

/-- Only a publisher makes a publisher's calls. -/
theorem Punctual.publisher (h : Punctual w t σ b) {c : Call} {o : Op}
    {k : Except Exc o.Ret → Code Outcome}
    (hp : w.procs p = some (c, .call o k)) (ho : o.isPublishers = true) : c.isPublisher := by
  by_contra hc
  have hnot : o.isPublishers = false := (h.abstains p c _ hp hc).1
  rw [ho] at hnot
  cases hnot

theorem Punctual.listed_step (h : Punctual w t σ b) (hs : (machine P).step mv w = some w')
    (he : e ∈ ((backlog w mv w' b).agenda p).listed) :
    (backlog w mv w' b).Due w'.shared.core p e := by
  have hclock := (h.counted.reachable.extends hs).clock
  have he : e ∈ (batching.track {} w mv w' b.agenda p).listed := he
  by_cases hpid : mv.pid = some p
  · rcases Machine.step_cases hs with ⟨r, c, s, rfl, -, -, -⟩ |
      ⟨r, ch, c, o, k, a, s, rfl, hp, hexec, hw'⟩ |
      ⟨r, c, prog, rfl, -, -⟩ | ⟨a, s, rfl, -, -⟩
    · cases hpid
      rw [show batching.track {} w (.start p c) w' b.agenda p = {} from
        Function.update_self ..] at he
      cases he
    · cases hpid
      have hs' : w'.shared = s := congrArg World.shared hw'
      rw [Discipline.track_run hp hexec, Function.update_self] at he
      have hstep : e ∈ (b.agenda p).listed → (∀ now limit, o ≠ .lockDueEvents now limit) →
          (backlog w (.run p ch) w' b).Due w'.shared.core p e := by
        intro hmem hno
        refine (h.listed p e hmem).step hmem hs fun ch' c' now limit k' hmv hp' => ?_
        rw [hp] at hp'
        cases hp'
        exact hno _ _ rfl
      cases o with
      | lockDueEvents now limit =>
        obtain ⟨hread, hfresh⟩ := h.follows.ok hp (h.publisher hp rfl)
        have hsame : w'.shared.core.db = w.shared.core.db := by
          rw [hs']
          exact ((exec_effect hexec).open rfl).2.2
        rcases exec_lockDueEvents (h.fresh p hfresh) hexec with ⟨text, exc, rfl, rfl⟩ |
          ⟨rows, rfl, rfl, hrows⟩
        · exact (h.listed p e he).keep (congrArg (Db.event · e) hsame) hclock rfl
        · obtain ⟨ev, hev, rfl⟩ := List.mem_map.mp he
          obtain ⟨hfound, hdue⟩ := hrows ev hev
          have hnone : (backlog w (.run p .answer) w' b).overtaken p ev.id = none := by
            rw [backlog_run hp fun _ hch => Choice.noConfusion hch]
            show Function.update b.overtaken p (fun _ => none) p ev.id = none
            rw [Function.update_self]
          refine ⟨ev, by rw [hsame, hfound], ?_⟩
          rw [hnone]
          exact Int.le_trans hdue (Int.le_trans (h.reading p now hread) hclock)
      | lockUnpublishedEvent e' => exact hstep (List.mem_of_mem_erase he) (fun _ _ ho =>
          Op.noConfusion ho)
      | now => cases a <;> exact hstep he fun _ _ ho => Op.noConfusion ho
      | aenter => cases a <;> exact hstep he fun _ _ ho => Op.noConfusion ho
      | _ => exact hstep he fun _ _ ho => Op.noConfusion ho
    · cases hpid
      rw [show batching.track {} w (.crash p) w' b.agenda p = {} from Function.update_self ..] at he
      cases he
    · cases hpid
  · rw [Discipline.track_other hpid] at he
    exact (h.listed p e he).step he hs fun ch c now limit k hmv =>
      absurd (congrArg Move.pid hmv) hpid

/-- An event that is taken up is due, or early. -/
theorem Punctual.taken {ch : Choice} {c : Call} {s : Shared}
    {k : Except Exc (Option OutboxEvent) → Code Outcome}
    {ev : OutboxEvent} (h : Punctual w t σ b)
    (hp : w.procs p = some (c, .call (.lockUnpublishedEvent e) k))
    (hexec : w.shared.exec P.reads p (.lockUnpublishedEvent e) ch = some (.ok (some ev), s)) :
    e ∈ (backlog w (.run p ch) w' b).early p ∨
      (s.core.db.event e = some ev ∧ ev.availableAt ≤ w.shared.core.clock) := by
  obtain ⟨hst, -, -⟩ := h.counted.reachable.pre hp
  obtain ⟨rfl, hopen⟩ := exec_lockUnpublishedEvent_open hexec
  have hearly : (backlog w (.run p .answer) w' b).early p = b.takeUp w.shared.core.clock p e p := by
    rw [backlog_run hp fun _ hch => Choice.noConfusion hch]
    rfl
  have hfound : w.shared.core.db.event e = some ev := by
    rcases exec_lockUnpublishedEvent hst hexec with ⟨-, hr | ⟨exc, hr⟩⟩ | ⟨ev', -, hr, hev⟩
    · cases hr
    · cases hr
    · cases hr
      exact hev
  obtain ⟨ev', hev', hat⟩ := h.listed p e (h.follows.ok hp (h.publisher hp rfl))
  rw [hfound] at hev'
  cases hev'
  have hdb : s.core.db.event e = some ev := by
    rw [((exec_effect hexec).open rfl).2.2]
    exact hfound
  rw [hearly, Backlog.takeUp]
  cases hover : b.overtaken p e with
  | none =>
    rw [hover] at hat
    exact .inr ⟨hdb, hat⟩
  | some next =>
    rw [hover] at hat
    have hat := hat.resolve_right fun hp => hp hopen
    by_cases hlt : w.shared.core.clock < next
    · refine .inl ?_
      rw [if_pos (by simpa using hlt), Function.update_self]
      exact List.mem_cons_self
    · exact .inr ⟨hdb, hat ▸ Int.not_lt.mp hlt⟩

theorem Punctual.ready_step (h : Punctual w t σ b) (hs : (machine P).step mv w = some w')
    (he : (publishing.track {} w mv w' σ p).event = some e) : e ∈ (backlog w mv w' b).early p ∨
      ∃ ev, w'.shared.core.db.event e = some ev ∧ ev.availableAt ≤ w'.shared.core.clock := by
  have hclock := (h.counted.reachable.extends hs).clock
  have hkeep : (σ p).event = some e → w'.shared.core.db.event e = w.shared.core.db.event e →
      (∀ x ∈ b.early p, x ∈ (backlog w mv w' b).early p) → e ∈ (backlog w mv w' b).early p ∨
        ∃ ev, w'.shared.core.db.event e = some ev ∧ ev.availableAt ≤ w'.shared.core.clock := by
    intro hev hdb hearly
    rcases h.ready p e hev with hmem | ⟨ev, hfound, hat⟩
    · exact .inl (hearly e hmem)
    · exact .inr ⟨ev, hdb.trans hfound, Int.le_trans hat hclock⟩
  by_cases hpid : mv.pid = some p
  · rcases Machine.step_cases hs with ⟨r, c, s, rfl, -, -, -⟩ |
      ⟨r, ch, c, o, k, a, s, rfl, hp, hexec, hw'⟩ |
      ⟨r, c, prog, rfl, -, -⟩ | ⟨a, s, rfl, -, -⟩
    · cases hpid
      rw [show publishing.track {} w (.start p c) w' σ p = {} from Function.update_self ..] at he
      cases he
    · cases hpid
      have hs' : w'.shared = s := congrArg World.shared hw'
      rw [Discipline.track_run hp hexec, Function.update_self] at he
      rcases event_next he with ⟨ev, rfl, hr⟩ | ⟨hev, ho⟩
      · cases hr
        refine (h.taken hp hexec).imp_right fun hdue => ⟨ev, ?_, Int.le_trans hdue.2 hclock⟩
        rw [hs']
        exact hdue.1
      · refine hkeep hev ?_ ?_
        · rw [hs', ((exec_effect hexec).open ho).2.2]
        · exact fun x hx => early_call hp ho hx
    · cases hpid
      rw [show publishing.track {} w (.crash p) w' σ p = {} from Function.update_self ..] at he
      cases he
    · cases hpid
  · rw [Discipline.track_other hpid] at he
    refine hkeep he ?_ ?_
    · have hlocked := (h.counted.fits p).locked e ((h.counted.fits p).event e he)
      exact (h.counted.reachable.rely hs hpid).keeps.event hlocked
    · exact fun x hx => (early_other hpid).symm ▸ hx

theorem Punctual.step (hclock : ∀ t r, P.reads t r = true → r = t) (h : Punctual w t σ b)
    (hs : (machine P).step mv w = some w') :
    Punctual w' (tally w mv w' t) (publishing.track {} w mv w' σ) (backlog w mv w' b) where
  counted := h.counted.step hs
  follows := by
    refine h.follows.step (fun c hc => ?_) hs fun _ _ _ _ _ _ _ _ _ _ _ => trivial
    obtain ⟨settings, rfl⟩ := hc
    refine .bind ((OutboxPublisher.publishDueBatchOnce_batching settings).mono fun r q _ => ?_)
    cases r <;> trivial
  abstains := Machine.step_asks (fun _ => Call.prog_abstains P) h.abstains hs
  reading p t ht := by
    have ht : (batching.track {} w mv w' b.agenda p).read = some t := ht
    have hle := (h.counted.reachable.extends hs).clock
    by_cases hpid : mv.pid = some p
    · rcases Machine.step_cases hs with ⟨r, c, s, rfl, -, -, -⟩ |
        ⟨r, ch, c, o, k, a, s, rfl, hp, hexec, -⟩ |
        ⟨r, c, prog, rfl, -, -⟩ | ⟨a, s, rfl, -, -⟩
      · cases hpid
        rw [show batching.track {} w (.start p c) w' b.agenda p = {} from
          Function.update_self ..] at ht
        cases ht
      · cases hpid
        rw [Discipline.track_run hp hexec, Function.update_self] at ht
        exact (reading_next hclock hexec (h.reading p) ht).trans hle
      · cases hpid
        rw [show batching.track {} w (.crash p) w' b.agenda p = {} from
          Function.update_self ..] at ht
        cases ht
      · cases hpid
    · rw [Discipline.track_other hpid] at ht
      exact (h.reading p t ht).trans hle
  fresh p hfresh := by
    have hfresh : (batching.track {} w mv w' b.agenda p).fresh = true := hfresh
    by_cases hpid : mv.pid = some p
    · rcases Machine.step_cases hs with ⟨r, c, s, rfl, -, -, -⟩ |
        ⟨r, ch, c, o, k, a, s, rfl, hp, hexec, hw'⟩ |
        ⟨r, c, prog, rfl, -, -⟩ | ⟨a, s, rfl, -, -⟩
      · cases hpid
        rw [show batching.track {} w (.start p c) w' b.agenda p = {} from
          Function.update_self ..] at hfresh
        cases hfresh
      · cases hpid
        rw [Discipline.track_run hp hexec, Function.update_self] at hfresh
        rw [hw']
        exact fresh_next (h.counted.reachable.pre hp) hexec (h.fresh p) hfresh
      · cases hpid
        rw [show batching.track {} w (.crash p) w' b.agenda p = {} from
          Function.update_self ..] at hfresh
        cases hfresh
      · cases hpid
    · rw [Discipline.track_other hpid] at hfresh
      rw [(step_other hs hpid).1]
      exact h.fresh p hfresh
  listed p e he := h.listed_step hs he
  ready p e he := h.ready_step hs he

end Step

/-- **An event that is not taken up early is published when it is due.** The clocks are right. A
publisher that is about to publish an event has taken it up before the backoff of a failure was over
that was recorded since it listed its batch, or the event is available. -/
theorem backoff_respected_unless_early {ok : World (machine P) → Move (machine P) →
    Prop} {b : Backlog} (hclock : ∀ t r, P.reads t r = true → r = t)
    (h : (machine P).ObservedBy ok backlog (World.init P) .empty w b) {c : Call}
    {m : DispatchOutboxMessage}
    {k : Except Exc Unit → Code Outcome} (hp : w.procs p = some (c, .call (.publishDispatch m) k))
    (hearly : m.eventId ∉ b.early p) :
    ∃ ev, w.shared.core.db.event m.eventId = some ev ∧ ev.availableAt ≤ w.shared.core.clock := by
  obtain ⟨t, ht⟩ := h.also tally .zero
  obtain ⟨σ, hσ⟩ := ht.also (publishing.track {}) fun _ => {}
  have hstart : Punctual (World.init P) .zero (fun _ => {}) .empty :=
    ⟨⟨.refl, nofun, fun _ _ => rfl, fun _ => .none rfl, fun _ => .inl le_rfl⟩, nofun,
      nofun, nofun, nofun,
      nofun, nofun⟩
  have hpunctual : Punctual w t σ b := hσ.invariant (I := fun w g =>
    Punctual w g.1.2 g.2 g.1.1) hstart
    fun _ _ _ _ hi _ hs => hi.step hclock hs
  have hevent := (hpunctual.counted.follows.ok hp (hpunctual.publisher hp rfl)).1
  exact (hpunctual.ready p m.eventId hevent).resolve_left hearly

/-- The run below: publishers 1 and 2 list the one event; the publish of 1 fails, and the failure is
recorded; then 2 takes the event up. -/
def overtakenMoves : List (Move (machine P)) :=
  [.env (.register 1)] ++ createMoves 0 1 10 11 "k" .success 0 ++
    [.start 1 (.publishDueBatchOnce {}), .run 1 (.time 0)] ++ answers 1 3 ++
    [.start 2 (.publishDueBatchOnce {}), .run 2 (.time 0)] ++ answers 2 3 ++
    answers 1 3 ++ [.run 1 (.time 0)] ++ answers 1 1 ++ [.run 1 (.fails "broker down")] ++
    answers 1 1 ++ [.run 1 (.time 0)] ++ answers 1 1 ++ [.run 1 (.time 0)] ++ answers 1 2

/-- The message a process is about to publish. -/
def atPublish (w : World (machine P)) (p : Pid) : Option DispatchOutboxMessage :=
  match w.procs p with
  | some (_, .call (.publishDispatch m) _) => some m
  | _ => none

theorem of_atPublish {m : DispatchOutboxMessage} (h : atPublish w p = some m) :
    ∃ c k, w.procs p = some (c, .call (.publishDispatch m) k) := by
  unfold atPublish at h
  split at h
  · rename_i c m' k hp
    cases h
    exact ⟨c, k, hp⟩
  · cases h

/-- Where 2 comes only after the backoff, it publishes the event when it is due. -/
theorem backoff_respected_unless_early_late : ∃ w : World (machine .default),
    atPublish w 2 = some ⟨11, 10, 0⟩ ∧
    ∃ ev, w.shared.core.db.event 11 = some ev ∧ ev.publishAttempts = 1 ∧
      ev.availableAt ≤ w.shared.core.clock := by
  have hrun : ((machine .default).observe backlog
    (overtakenMoves ++ [.env (.tick 1000000)] ++ answers 2 3 ++
      [.run 2 (.time (seconds 1))] ++ answers 2 1) (World.init .default) .empty).map (fun x =>
        (x.2.early 2, atPublish x.1 2, (x.1.shared.core.db.event 11).map
          OutboxEvent.publishAttempts)) =
      some ([], some ⟨11, 10, 0⟩, some 1) := by
    decide +kernel
  simp only [Option.map_eq_some_iff, Prod.mk.injEq] at hrun
  obtain ⟨⟨w, b⟩, hw, hearly, hat, ev, hev, hone⟩ := hrun
  obtain ⟨c, k, hp⟩ := of_atPublish hat
  have hobserved : (machine .default).ObservedBy (fun _ _ => True) backlog
      (World.init .default) .empty w b :=
    .of_observe (fun _ _ => trivial) hw
  obtain ⟨ev', hev', hle⟩ := backoff_respected_unless_early
    (fun t r hr => by simpa [Params.default] using hr)
    hobserved hp
    (fun hmem => by rw [hearly] at hmem; cases hmem)
  rw [hev] at hev'
  cases hev'
  exact ⟨w, hat, ev, hev, hone, hle⟩

/-- Where 2 comes at once, it is about to publish the event a second before it is available. -/
theorem backoff_ignored : (∀ t r, Params.default.reads t r = true → r = t) ∧
    ∃ w : World (machine .default), Reachable .default w ∧
      ∃ p c m k ev, w.procs p = some (c, .call (.publishDispatch m) k) ∧
        w.shared.core.db.event m.eventId = some ev ∧ w.shared.core.clock < ev.availableAt := by
  refine ⟨fun t r hr => by simpa [Params.default] using hr, ?_⟩
  have hrun : ((machine .default).run (overtakenMoves ++ answers 2
    3 ++ [.run 2 (.time 0)] ++ answers 2 1)
      (World.init .default)).map (fun w => (atPublish w 2, w.shared.core.clock,
        (w.shared.core.db.event 11).map OutboxEvent.availableAt)) =
      some (some ⟨11, 10, 0⟩, 0, some (seconds 1)) := by
    decide +kernel
  simp only [Option.map_eq_some_iff, Prod.mk.injEq] at hrun
  obtain ⟨w, hw, hat, hclock, ev, hev, havail⟩ := hrun
  obtain ⟨c, k, hp⟩ := of_atPublish hat
  refine ⟨w, .of_run hw, 2, c, _, k, ev, hp, hev, ?_⟩
  rw [hclock, havail]
  decide

end CloudJob
