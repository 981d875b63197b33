import CloudJob.Contract.Uow

/-!
# `Contract/Publish.lean` — the publisher keeps the contract

An event is settled in a transaction that holds the event and its job, so from the moment both are
locked until the commit the event stays pending and the job keeps its status. What makes it right to
settle it is that the broker took the message *before* the commit: the message may turn out to be
one too many, never one too few.

Two branches of the source are not reached. An event always has its job, and a job read as pending
under its lock is still pending when `mark_queued` runs.
-/

set_option autoImplicit false

namespace CloudJob

open Lib

variable {P : Params} {p : Pid} {g : Ghost} {c : Core} {s s' : Shared} {β : Type} {op : Call}
  {Q : Except Exc β → Shared → Prop}

/-- The transaction holds the unpublished event `ev` and its job, whose row is `row`. -/
structure Claimed (P : Params) (g : Ghost) (c : Core) (ev : OutboxEvent) (row : Job) : Prop where
  eventLocked : .event ev.id ∈ g.rows
  jobLocked : .job row.id ∈ g.rows
  event : c.db.event ev.id = some ev
  unpublished : ev.publishedAt = none
  job : c.db.job row.id = some row
  aggregate : ev.aggregateId = row.id
  due : c.WasDue P ev.id

theorem Claimed.keep {ev : OutboxEvent} {row : Job} {g' : Ghost} {c' : Core}
    (h : Claimed P g c ev row)
    (hrows : ∀ r ∈ g.rows, r ∈ g'.rows) (hc : Keeps (· ∈ g.rows) c c') : Claimed P g' c' ev row :=
  ⟨hrows _ h.eventLocked, hrows _ h.jobLocked, (hc.event h.eventLocked).trans h.event,
    h.unpublished,
    (hc.job h.jobLocked).trans h.job, h.aggregate, h.due.mono hc.clock hc.history⟩

theorem Claimed.dispatches {ev : OutboxEvent} {row : Job} (h : Claimed P g c ev row) :
    c.Dispatches ev.id row.id row :=
  ⟨h.job, ev, h.event, by simp [OutboxEvent.isPendingDispatch, h.aggregate, h.unpublished]⟩

/-- `mark_published` on the event one holds. -/
theorem Held.markPublished {ev : OutboxEvent} {row : Job} {now : Datetime} {f : Unit → Code β}
    (h : Held P p g c s) (hc : Claimed P g c ev row)
    (hstaged : ∀ st ∈ g.staged, LockRow.event ev.id ∉ st.rows)
    (hok : ∀ s', Held P p (g.stage [] (.updateEvent ev.id (.markPublished now))) c s' →
      (contract P).Safe p (f ()) Q s')
    (herr : ∀ e s', e.isExternal = true → Inv P s' → Held P p g c s' → Q (.error e) s') :
    (contract P).Safe p ((Outbox.markPublished ev.id now).bind f) Q s := by
  have hev : ∀ s', Held P p g c s' → s'.core.db.event ev.id = some ev := fun s' hh =>
    (hh.keeps.event hc.eventLocked).trans hc.event
  have houtcome : ∀ s', Held P p g c s' →
      (Stmt.updateEvent ev.id (.markPublished now)).outcome (s'.core.db.applyAll g.staged) =
        .matched := by
    intro s' hh
    simp [Stmt.outcome, event_applyAll hstaged, hev s' hh, EventStmt.update, CloudJob.markPublished]
  have hrows : ∀ r ∈ (Stmt.updateEvent ev.id (.markPublished now)).rows, r ∈ g.rows := by
    intro r hr
    simp only [Stmt.rows, List.mem_singleton] at hr
    exact hr ▸ hc.eventLocked
  unfold Outbox.markPublished
  simp only [Prog.bind_eq, Prog.pure_eq, Prog.bind_assoc, Prog.ret_bind]
  refine h.write (fun s' _ hh => ⟨⟨?_, fun h => (by cases h), fun h => (by cases h), fun h =>
    (by cases h), fun h => (by cases h),
      fun h => (by cases h),
      hc.due.mono hh.keeps.clock hh.keeps.history⟩,
    .inl fun r hr => ?_⟩) (fun _ hm => by simp [Stmt.rows] at hm)
    (fun _ _ hm => by simp [Stmt.rows] at hm) (fun s' _ hh _ _ => hok _ (hh.stageLocked _ hrows))
      (fun s' _ hh ho => ?_)
    (fun s' orig _ hh ho => ?_) herr
  · intro ev' hev'
    rw [hev s' hh] at hev'
    cases hev'
    rw [hc.aggregate]
    exact (hh.locks _).mpr hc.jobLocked
  · exact hh.free (hrows r hr)
  · rw [houtcome s' hh] at ho
    cases ho
  · rw [houtcome s' hh] at ho
    cases ho

/-- `record_publish_failure`, which opens its transaction. -/
theorem Held.recordPublishFailure {e : Uuid} {error : String} {next : Datetime} {f : Unit → Code β}
    (h : Held P p g c s) (hr : g.rows = []) (hst : g.staged = []) (hdue : c.WasDue P e)
    (hok : ∀ g' c' s', Held P p g' c' s' → g'.call = g.call → (∀ c, Action P c g'.staged) →
      (contract P).Safe p (f ()) Q s')
    (herr : ∀ e s', e.isExternal = true → Somewhere P p g.call s' → Q (.error e) s') :
    (contract P).Safe p ((Outbox.recordPublishFailure e error next).bind f) Q s := by
  unfold Outbox.recordPublishFailure utcNow
  simp only [Prog.bind_eq, Prog.pure_eq, Prog.bind_assoc, Prog.ret_bind]
  refine h.now fun now s₁ h₁ => h₁.write (fun s₂ _ h₂ => ?_)
    (fun _ hm => by simp [Stmt.rows] at hm) (fun _ _ hm => by simp [Stmt.rows] at hm)
    (fun s₂ hi h₂ _ _ => ?_) (fun s₂ _ h₂ _ => ?_) (fun s₂ orig _ _ ho => ?_)
    fun e s₂ he _ h₂ => herr e s₂ he h₂.somewhere
  · exact ⟨⟨trivial, fun h => (by cases h), fun h => (by cases h), fun h =>
      (by cases h), fun h => (by cases h),
      fun h => (by cases h), hdue.mono h₂.keeps.clock h₂.keeps.history⟩,
      .inr hr⟩
  · refine hok _ _ _ ((h₂.rebase hi).stage (.updateEvent e (.recordPublishFailure error next now))
      (.refl _)) rfl fun c => ?_
    show Action P c (g.staged ++ [_])
    rw [hst]
    exact .recordFailure
  · refine hok _ _ _ h₂ rfl fun c => ?_
    show Action P c g.staged
    rw [hst]
    exact .idle
  · simp only [Stmt.outcome] at ho
    split at ho <;> cases ho

namespace OutboxPublisher

/-- An ending of a transaction of the publisher: no exception but an external one. -/
def Ended (P : Params) (p : Pid) (op : Call) (_ : Bool) (s : Shared) : Prop := Somewhere P p op s

/-- The last part of every branch: the event is settled and the transaction committed. -/
theorem settle_safe {ev : OutboxEvent} {row : Job} {now : Datetime} (h : Held P p g c s)
    (hop : g.call = op) (hcall : ∀ settings w m, g.call ≠ .handleMessage settings w m)
    (hc : Claimed P g c ev row) (hstaged : ∀ st ∈ g.staged, LockRow.event ev.id ∉ st.rows)
    (htxn : ∀ c', Claimed P g c' ev row → Keeps (· ∈ g.rows) c c' →
      (∀ t ∈ g.readings, P.ReadBy c'.clock t) →
      Action P c' (g.staged ++ [.updateEvent ev.id (.markPublished now)])) :
    (contract P).Safe p ((Outbox.markPublished ev.id now).bind fun _ =>
        CloudJob.commit.bind fun _ => .ret true)
      (UowPost P p op (Ended P p op) fun e _ _ => e.isExternal = true) s := by
  subst hop
  refine h.markPublished hc hstaged (fun s₁ h₁ => ?_) fun e s₁ he _ h₁ => ⟨_, _, h₁, rfl, he⟩
  refine h₁.commitAction hcall (fun c' hk hread => htxn c' (hc.keep (fun _ hr => hr) hk) hk hread)
    (fun s₂ h₂ => h₂.ret fun s₃ _ h₃ => ⟨_, _, h₃, rfl⟩) fun e s₂ he h₂ => h₂.raised fun _ _ => he

theorem discard_safe {ev : OutboxEvent} {row : Job} (h : Held P p g c s) (hop : g.call = op)
    (hcall : ∀ settings w m, g.call ≠ .handleMessage settings w m) (hc : Claimed P g c ev row)
    (hst : g.staged = []) (hd : row.status.isDispatchable = false) :
    (contract P).Safe p ((discardNonDispatchableEvent ev row.status).bind fun _ =>
        CloudJob.commit.bind fun _ => .ret true)
      (UowPost P p op (Ended P p op) fun e _ _ => e.isExternal = true) s := by
  unfold discardNonDispatchableEvent utcNow
  simp only [Prog.bind_eq, Prog.bind_assoc]
  refine h.createSystemLog (fun t s₁ h₁ => h₁.now fun now s₂ h₂ => ?_)
    fun e s₁ he h₁ => (hop ▸ h₁).raised fun _ _ => he
  refine settle_safe h₂ hop hcall ⟨hc.eventLocked, hc.jobLocked, hc.event, hc.unpublished, hc.job,
    hc.aggregate, hc.due⟩ ?_ fun c' hc' hk _ => ?_
  · intro st hm
    simp only [Ghost.stage, hst, List.nil_append, List.mem_singleton] at hm
    subst hm
    exact List.not_mem_nil
  · show Action P c' ((g.staged ++ [_]) ++ [_])
    rw [hst, hc.aggregate]
    exact .discard hc'.dispatches hd

/-- How the `try` body of `_process_claimed_event_once` ends: with the message sent and, if the job
was pending, its update staged. -/
def SentPost (P : Params) (p : Pid) (op : Call) (ev : OutboxEvent) (row : Job) :
    Except Exc Bool → Shared → Prop
  | .ok returned, s => returned = false ∧ ∃ g c, Held P p g c s ∧ g.call = op ∧
      Claimed P g c ev row ∧
      c.Unspent row.id ∧ ((row.status = .pending ∧ ∃ now ∈ g.readings,
        g.staged = [.updateJob row.id (.markQueued now)]) ∨ (row.status = .queued ∧ g.staged = []))
  | .error e, s => e.isExternal = true ∧ Somewhere P p op s

theorem stageAndPublish_safe {ev : OutboxEvent} {row : Job} (h : Held P p g c s) (hop : g.call = op)
    (hpub : ∃ settings, g.call = .publishDueBatchOnce settings)
    (hc : Claimed P g c ev row) (hst : g.staged = []) (hd : row.status.isDispatchable = true) :
    (contract P).Safe p (stageAndPublish ev (toStoredJobDto row)) (SentPost P p op ev row) s := by
  subst hop
  obtain ⟨m, hm, hmj, hme⟩ := h.origin.wellFormed.payload hc.event
  rw [hc.aggregate] at hmj
  unfold stageAndPublish
  rw [hm]
  show (contract P).Safe p (if row.status = .pending then _ else _) _ s
  split
  · rename_i hp
    unfold utcNow
    refine h.now fun now s₁ h₁ => h₁.updateLocked row hc.jobLocked hc.job
      (not_mem_rows_of_nil hst _)
      (fun _ _ _ => .updateJob rfl nofun trivial) (fun _ s₂ h₂ => ?_) (fun hg s₂ h₂ => ?_)
      fun e s₂ he _ h₂ => ⟨he, h₂.somewhere⟩
    · have hc₂ : Claimed P (Ghost.stage { g with readings := now :: g.readings } []
          (.updateJob row.id (.markQueued now))) c ev row := hc.keep (fun _ hr => hr) (.refl _)
      refine h₂.publishDispatch hpub (hmj ▸ hc₂.jobLocked) (by rw [hmj, hc.job]; rfl)
        (hme ▸ hc₂.eventLocked) (hme ▸ hc₂.event) hc.unpublished (hme ▸ hc₂.due)
        (fun c₃ s₃ hk hu h₃ => ?_) fun e s₃ he _ h₃ => ⟨he, h₃.somewhere⟩
      refine h₃.ret fun s₄ _ h₄ => ⟨rfl, _, c₃, h₄, rfl, hc₂.keep (fun _ hr => hr) hk, hmj ▸ hu,
        .inl ⟨hp, now, List.mem_cons_self, ?_⟩⟩
      show g.staged ++ [_] = _
      rw [hst]
      rfl
    · simp [JobStmt.update, CloudJob.markQueued, hp] at hg
  · rename_i hp
    have hq : row.status = .queued := by
      cases hs : row.status <;> simp_all [JobStatus.isDispatchable]
    refine h.publishDispatch hpub (hmj ▸ hc.jobLocked) (by rw [hmj, hc.job]; rfl) (hme ▸
      hc.eventLocked)
      (hme ▸ hc.event) hc.unpublished (hme ▸ hc.due) (fun c₁ s₁ hk hu h₁ => ?_)
      fun e s₁ he _ h₁ => ⟨he, h₁.somewhere⟩
    exact h₁.ret fun s₂ _ h₂ => ⟨rfl, _, c₁, h₂, rfl, hc.keep (fun _ hr => hr) hk, hmj ▸ hu,
      .inr ⟨hq, hst⟩⟩

theorem recordFailureAfterRollback_safe {ev : OutboxEvent} {error : String} (h : Held P p g c s)
    (hop : g.call = op) (hcall : ∀ settings w m, g.call ≠ .handleMessage settings w m)
    (hdue : c.WasDue P ev.id) :
    (contract P).Safe p ((recordFailureAfterRollback ev error).bind fun _ => .ret true)
      (UowPost P p op (Ended P p op) fun e _ _ => e.isExternal = true) s := by
  subst hop
  unfold recordFailureAfterRollback utcNow
  simp only [Prog.bind_eq, Prog.bind_assoc]
  refine h.rollback (fun s₁ h₁ => h₁.now fun now s₂ h₂ => ?_) fun e s₁ he _ h₁ =>
    ⟨_, _, h₁, rfl, he⟩
  refine Protocol.Safe.bind (h₂.withUow (E := fun e _ _ => e.isExternal = true)
    (B := fun _ s => Somewhere P p g.call s) rfl rfl (fun _ he => he)
    (fun e _ c' s₃ he h₃ hc => ⟨_, c', h₃, hc, he⟩) (fun s₃ h₃ => ?_) fun _ s₃ _ h₃ => ?_)
  · refine h₃.recordPublishFailure rfl rfl hdue (fun g' c' s₄ h₄ hc' htxn => ?_)
      fun e s₄ he h₄ => h₄.raised fun _ _ => he
    rw [← Prog.bind_ret CloudJob.commit]
    exact h₄.commitAction (hc' ▸ hcall) (fun c _ _ => htxn c)
      (fun s₅ h₅ => h₅.ret fun s₆ _ h₆ => ⟨_, _, h₆, hc'⟩)
      fun e s₅ he h₅ => (hc' ▸ h₅).raised fun _ _ => he
  · obtain ⟨g', c', h', hc'⟩ := h₃
    refine h'.leave (hc' ▸ hcall) (fun s₄ _ h₄ => h₄.ret fun s₅ _ h₅ => ⟨_, _, h₅, hc'⟩) ?_
    exact fun e s₄ he h₄ => (hc' ▸ h₄).raised fun _ _ => he

theorem processLocked_safe {ev : OutboxEvent} {row : Job} (h : Held P p g c s) (hop : g.call = op)
    (hpub : ∃ settings, g.call = .publishDueBatchOnce settings)
    (hcall : ∀ settings w m, g.call ≠ .handleMessage settings w m) (hc : Claimed P g c ev row)
    (hst : g.staged = []) :
    (contract P).Safe p (processLocked ev (toStoredJobDto row))
      (UowPost P p op (Ended P p op) fun e _ _ => e.isExternal = true) s := by
  unfold processLocked utcNow
  simp only [Prog.bind_eq, Prog.pure_eq]
  show (contract P).Safe p (if row.status.isDispatchable then _ else _) _ s
  split
  · rename_i hd
    -- the event was due, and that is not forgotten where the `try` body raises
    refine Protocol.Safe.bind (Protocol.Safe.attempt ((safe_lasting (M := (·.WasDue P ev.id))
      (fun hx hd => hd.mono hx.clock hx.history) (stageAndPublish_safe h hop hpub hc hst hd)
      (hc.due.mono h.keeps.clock h.keeps.history)).mono ?_))
    intro r s₁ hi ⟨hdue, hpost⟩
    cases r with
    | error e =>
      obtain ⟨he, g', c', h₁, hc'⟩ := hpost
      exact recordFailureAfterRollback_safe (h₁.rebase hi) hc' (hc' ▸ hop ▸ hcall) hdue
    | ok returned =>
      obtain ⟨rfl, g', c', h₁, hc', hcl, hu, hstaged⟩ := hpost
      refine h₁.now fun now s₂ h₂ => settle_safe h₂ hc' (hc' ▸ hop ▸ hcall)
        (hcl.keep (fun _ hr => hr) (.refl _)) ?_ fun c₃ hc₃ hk hread => ?_
      · intro st hm
        rcases hstaged with ⟨-, t, -, hs⟩ | ⟨-, hs⟩
        · simp only [hs, List.mem_singleton] at hm
          subst hm
          simp [Stmt.rows]
        · simp [hs] at hm
      · have hu₃ := hk.unspent hcl.jobLocked hu
        rcases hstaged with ⟨hp, t, ht, hs⟩ | ⟨hq, hs⟩
        · show Action P c₃ (g'.staged ++ [_])
          rw [hs]
          exact .queue hc₃.dispatches hp hu₃ (hread t (List.mem_cons_of_mem _ ht))
        · show Action P c₃ (g'.staged ++ [_])
          rw [hs]
          exact .republish hc₃.dispatches hq hu₃
  · rename_i hd
    exact discard_safe h hop hcall hc hst (by simpa using hd)

/-- How `_process_claimed_event_once` ends: outside of any transaction. -/
def ProcessPost (P : Params) (p : Pid) (op : Call) : Except Exc Bool → Shared → Prop
  | .ok _, s => ∃ g c, Held P p g c s ∧ g.call = op ∧ g.rows = [] ∧ g.staged = []
  | .error e, _ => e.isExternal = true

theorem processClaimedEventOnce_safe {settings : Settings} {e : Uuid} (h : Held P p g c s)
    (hop : g.call = .publishDueBatchOnce settings) (hr : g.rows = []) (hst : g.staged = [])
    (hdue : c.WasDue P e) :
    (contract P).Safe p (processClaimedEventOnce e) (ProcessPost P p g.call) s := by
  have hcall : ∀ settings w m, g.call ≠ .handleMessage settings w m := fun _ _ _ heq => by
    rw [hop] at heq
    cases heq
  refine h.withUow (E := fun e _ _ => e.isExternal = true) (B := Ended P p g.call) hr hst
    (fun _ he => he) (fun e _ _ s₁ he _ _ => he) (fun s₁ h₁ => ?_) fun r s₁ _ h₁ => ?_
  · unfold Outbox.getByIdForUpdateUnpublished Jobs.getByIdForUpdate
    simp only [Prog.bind_eq, Prog.pure_eq, Prog.bind_assoc, Prog.ret_bind]
    refine h₁.lockUnpublishedEvent hr hst ⟨_, hop⟩ (fun s₂ h₂ => h₂.ret fun s₃ _ h₃ => h₃.somewhere)
      (fun c₂ ev s₂ hk₂ hev hun h₂ => ?_) fun e s₂ he _ h₂ => ⟨_, _, h₂, rfl, he⟩
    rw [hst, Db.applyAll_nil] at hev
    obtain rfl := Db.event_id hev
    refine h₂.selectJobForUpdate (.inl ?_) (fun settings hc => ?_) (fun o ho => ?_)
      (fun s₃ hi h₃ hnone => ?_) (fun c₃ row s₃ hk₃ hrow _ h₃ _ => ?_)
      fun e s₃ he _ h₃ => ⟨_, _, h₃, rfl, he⟩
    · intro r hm
      rw [hr, List.append_nil, List.mem_singleton] at hm
      exact ⟨_, hm⟩
    · rw [show g.call = _ from hop] at hc
      cases hc
    · rw [hr, List.append_nil, List.mem_singleton] at ho
      cases ho
    · -- an event is never without its job
      exfalso
      have hev₃ := (h₃.keeps.event List.mem_cons_self).trans hev
      have hjob := hi.lawful.wellFormed.aggregate hev₃
      simp only [hst, Db.applyAll_nil, Option.filter_eq_none_iff, Option.all_none] at hnone
      obtain ⟨row, hrow⟩ := Option.isSome_iff_exists.mp hjob
      exact hnone row hrow trivial
    · simp only [hst, Db.applyAll_nil] at hrow
      have hid := Db.job_id hrow
      refine processLocked_safe h₃ rfl ⟨_, hop⟩ hcall ⟨?_, ?_, ?_, hun, ?_, hid.symm, ?_⟩ hst
      · simp
      · simp [hid]
      · exact (hk₃.event List.mem_cons_self).trans hev
      · rw [hid]
        exact hrow
      · exact hdue.mono (hk₂.clock.trans hk₃.clock) (hk₂.history.trans hk₃.history)
  · obtain ⟨g', c', h', hc'⟩ := h₁
    exact h'.leave (hc' ▸ hcall) (fun s₂ _ h₂ => ⟨_, c', h₂, hc', rfl, rfl⟩) fun e s₂ he _ => he

/-- The loop. That the events still to come were due lasts while one is processed. -/
theorem processAll_safe {settings : Settings} :
    ∀ {ids : List Uuid} {g : Ghost} {c : Core} {s : Shared},
    Held P p g c s → g.call = .publishDueBatchOnce settings → g.rows = [] → g.staged = [] →
    (∀ e ∈ ids, c.WasDue P e) → (contract P).Safe p (processAll ids) (fun _ _ => True) s
  | [], g, c, s, _, _, _, _, _ => fun _ _ _ => trivial
  | e :: rest, g, c, s, h, hop, hr, hst, hdue => by
    simp only [processAll, Prog.bind_eq, Prog.pure_eq]
    refine (safe_lasting (M := fun c => ∀ e ∈ rest, c.WasDue P e)
      (fun hx hd e he => (hd e he).mono hx.clock hx.history)
      (processClaimedEventOnce_safe h hop hr hst (hdue e List.mem_cons_self)) fun e he =>
        (hdue e (List.mem_cons_of_mem _ he)).mono h.keeps.clock h.keeps.history).andThen
      (fun r s₁ hi hpost => ?_) fun _ _ _ _ => trivial
    obtain ⟨hdue₁, g', c', h₁, hc', hr', hst'⟩ := hpost
    exact (processAll_safe (h₁.rebase hi) (hc'.trans hop) hr' hst' hdue₁).andThen
      (fun _ _ _ _ => fun _ _ _ => trivial) fun _ _ _ _ => trivial

theorem publishDueBatchOnce_safe {settings settings' : Settings} (h : Held P p g c s)
    (hop : g.call = .publishDueBatchOnce settings) (hr : g.rows = []) (hst : g.staged = []) :
    (contract P).Safe p (publishDueBatchOnce settings') (fun _ _ => True) s := by
  have hcall : ∀ {g' : Ghost}, g'.call = g.call →
      ∀ settings w m, g'.call ≠ .handleMessage settings w m := fun hc _ _ _ heq => by
    rw [hc, hop] at heq
    cases heq
  unfold publishDueBatchOnce utcNow Outbox.claimDueBatch
  simp only [Prog.bind_eq, Prog.pure_eq]
  refine h.now fun now s₁ h₁ => Protocol.Safe.bind (h₁.withUow (E := fun _ _ _ => True)
    (B := fun ids s => ∃ g' c', Held P p g' c' s ∧ g'.call = g.call ∧
      ∀ e ∈ ids, c'.WasDue P e) hr hst
    (fun _ _ => trivial) (fun _ _ _ _ _ _ _ => trivial) (fun s₂ h₂ => ?_) fun ids s₂ _ h₂ => ?_)
  · refine h₂.lockDueEvents hst List.mem_cons_self (fun c₃ rows s₃ hdue h₃ =>
      h₃.ret fun s₄ _ h₄ => ⟨_, c₃, h₄, rfl, fun e he => ?_⟩) ?_
    · obtain ⟨ev, hev, rfl⟩ := List.mem_map.mp he
      exact hdue ev hev
    · exact fun e s₃ _ _ h₃ => ⟨_, _, h₃, rfl, trivial⟩
  · obtain ⟨g', c', h', hc', hdue⟩ := h₂
    exact h'.leave (hcall hc') (fun s₃ _ h₃ => processAll_safe h₃ (hc'.trans hop) rfl rfl hdue)
      fun _ _ _ _ => trivial

end OutboxPublisher

end CloudJob
