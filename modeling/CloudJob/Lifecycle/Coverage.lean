import CloudJob.Lifecycle.Effect

/-!
# `Lifecycle/Coverage.lean` — no accepted job is stranded

What wakes a job up moves between three places: an unpublished event while it is pending, the event
or a broker message while it is queued, its lease while it runs. `Core.Covered` says that it is
always in one of them. The message side is the delicate one. A message stops counting the moment a
claim on it has returned, long before it is acked, so `spend` — not `drop` — is the step that could
lose a job, and its guard is what the locks of `_claim_execution` pay for. -/

set_option autoImplicit false

namespace CloudJob

open Lib

variable {P : Params} {c c' : Core}

/-! ## Well-formedness -/

/-- What the tables and the broker owe each other. -/
structure Core.WellFormed (c : Core) : Prop where
  owner : ∀ {k : Uuid} {row : Job}, c.db.job k = some row → row.ownerId ∈ c.db.users
  aggregate : ∀ {e : Uuid} {ev : OutboxEvent}, c.db.event e = some ev →
    (c.db.job ev.aggregateId).isSome = true
  payload : ∀ {e : Uuid} {ev : OutboxEvent}, c.db.event e = some ev →
    ∃ d, ev.payload = .message d ∧ d.jobId = ev.aggregateId ∧ d.eventId = e
  message : ∀ {m : Message} {j : Uuid}, m ∈ c.broker → m.IsFor j → (c.db.job j).isSome = true
  sent : ∀ {m : Message}, m ∈ c.broker → m.id < c.nextMsg
  distinct : ∀ {m m' : Message}, m ∈ c.broker → m' ∈ c.broker → m.id = m'.id → m = m'
  spentSent : ∀ {id : Nat}, id ∈ c.spent → id < c.nextMsg

theorem JobEffect.isSome_job (h : JobEffect P c c') {k : Uuid} (hk : (c.db.job k).isSome = true) :
    (c'.db.job k).isSome = true := by
  obtain ⟨row, hrow⟩ := Option.isSome_iff_exists.mp hk
  obtain ⟨row', hrow', -⟩ := h.row_stays hrow
  rw [hrow']
  rfl

/-- What one step does to the events: it inserts a dispatch of a job that is there and has none
pending, or it updates one that is pending. -/
inductive EventEffect (c c' : Core) : Prop where
  | none : c'.db.outbox = c.db.outbox → EventEffect c c'
  | insert (e j : Uuid) (t availableAt : Datetime) : c.db.event e = Option.none →
      (c'.db.job j).isSome = true → c.db.job j = Option.none ∨ (∀ e', ¬ c.db.Pending j e') →
      c'.db.outbox = c.db.outbox.insert (newDispatchEvent e j t availableAt) → EventEffect c c'
  | update (e : Uuid) (st : EventStmt) :
      (∀ ev, c.db.event e = some ev → st.update.guard ev = true → ev.publishedAt = Option.none) →
      c'.db.outbox = c.db.outbox.modify e st.update.run st.update.run_id → EventEffect c c'

theorem Redispatch.eventEffect {j : Uuid} {at' : Datetime} {ev : List Stmt}
    (h : Redispatch c j at' ev) {p : Pid} {st : JobStmt} {log : JobLog} {row : Job}
    (hrow : c.db.job j = some row) :
    EventEffect c (c.commit p (.updateJob j st :: (ev ++ [.insertLog log]))) := by
  cases h with
  | existing => exact .none rfl
  | @new e t hno he =>
    refine .insert e j t at' he ?_ (.inr hno) rfl
    show ((Stmt.apply c.db (.updateJob j st)).job j).isSome = true
    rw [job_updateJob, if_pos rfl, hrow]
    rfl

theorem Action.eventEffect {l : List Stmt} (h : Action P c l) (p : Pid) :
    EventEffect c (c.commit p l) := by
  have hpublish : ∀ {e j : Uuid} {row : Job}, c.Dispatches e j row →
      ∀ ev, c.db.event e = some ev → ev.publishedAt = none := by
    rintro e j row ⟨-, ev', hev', hp⟩ ev hev
    rw [hev] at hev'
    cases hev'
    simp only [OutboxEvent.isPendingDispatch, Bool.and_eq_true, Option.isNone_iff_eq_none] at hp
    exact hp.2
  cases h with
  | create _ _ hid he =>
    refine .insert _ _ _ _ he ?_ (.inl hid) rfl
    show ((Stmt.apply c.db (.insertJob _)).job _).isSome = true
    rw [job_insertJob (by exact hid)]
    simp [newPendingJob]
  | queue hd => exact .update _ _ (fun ev hev _ => hpublish hd ev hev) rfl
  | republish hd => exact .update _ _ (fun ev hev _ => hpublish hd ev hev) rfl
  | discard hd => exact .update _ _ (fun ev hev _ => hpublish hd ev hev) rfl
  | recordFailure =>
    exact .update _ _ (fun ev _ hg => by
      simpa [EventStmt.update, recordPublishFailure] using hg) rfl
  | claim => exact .none rfl
  | idle => exact .none rfl
  | defer hrow _ hno he => exact .insert _ _ _ _ he (by simp [hrow]) (.inr hno) rfl
  | close h =>
    cases h with
    | retried h _ _ _ hev => exact hev.eventEffect h.found
    | staleRequeued h _ _ _ hev => exact hev.eventEffect h.found
    | _ => exact .none rfl
  | cancel => exact .none rfl
  | requestCancel => exact .none rfl

theorem Core.Step.eventEffect (h : Core.Step P c c') : EventEffect c c' := by
  cases h with
  | act p h => exact h.eventEffect p
  | env h => exact .none (Core.env_cases h).2.1
  | _ => exact .none rfl

/-- The row of an event after a step. -/
theorem EventEffect.row_cases (h : EventEffect c c') {k : Uuid} {ev' : OutboxEvent}
    (hk : c'.db.event k = some ev') :
    (∃ ev, c.db.event k = some ev ∧ ev'.aggregateId = ev.aggregateId ∧ ev'.payload = ev.payload) ∨
    ∃ j t availableAt, ev' = newDispatchEvent k j t availableAt ∧ (c'.db.job j).isSome = true := by
  cases h with
  | none ho => exact .inl ⟨ev', by rwa [Db.event, ho] at hk, rfl, rfl⟩
  | insert e j t availableAt he hj _ ho =>
    rw [Db.event, ho, Table.find?_insert (by exact he)] at hk
    split at hk
    · rename_i hke
      have hke : k = e := hke
      subst hke
      cases hk
      exact .inr ⟨j, t, availableAt, rfl, hj⟩
    · exact .inl ⟨ev', hk, rfl, rfl⟩
  | update e st _ ho =>
    rw [Db.event, ho, Table.find?_modify] at hk
    split at hk
    · rename_i hke
      subst hke
      obtain ⟨ev, hev, rfl⟩ := Option.map_eq_some_iff.mp hk
      obtain ⟨-, hagg, -, hpay⟩ := st.update.run_keeps ev
      exact .inl ⟨ev, hev, hagg, hpay⟩
    · exact .inl ⟨ev', hk, rfl, rfl⟩

/-- No update makes an event pending that was not. -/
theorem isPendingDispatch_run {st : EventStmt} {ev : OutboxEvent} {j : Uuid}
    (h : (st.update.run ev).isPendingDispatch j = true) : ev.isPendingDispatch j = true := by
  unfold EventUpdate.run at h
  split at h
  · cases st with
    | markPublished now => simp [EventStmt.update, markPublished,
        OutboxEvent.isPendingDispatch] at h
    | recordPublishFailure error next now => exact h
  · exact h

/-- A pending dispatch after a step was pending before, or is the only one of its job. -/
theorem EventEffect.pending_cases (h : EventEffect c c') {j e : Uuid} (hp : c'.db.Pending j e) :
    c.db.Pending j e ∨ ((c.db.job j = Option.none ∨ ∀ e', ¬ c.db.Pending j e') ∧
      ∀ e', c'.db.Pending j e' → c.db.Pending j e' ∨ e' = e) := by
  obtain ⟨ev', hev', hpend⟩ := hp
  cases h with
  | none ho => exact .inl ⟨ev', by rwa [Db.event, ho] at hev', hpend⟩
  | insert e₀ j₀ t availableAt he hj hno ho =>
    have hiff : ∀ e', c'.db.Pending j e' ↔ c.db.Pending j e' ∨
        (e' = e₀ ∧ (newDispatchEvent e₀ j₀ t availableAt).isPendingDispatch j = true) := by
      intro e'
      have hfresh : c.db.event (newDispatchEvent e₀ j₀ t availableAt).id = Option.none := he
      refine Iff.trans ?_ (pending_insertEvent hfresh j)
      unfold Db.Pending Db.event
      rw [ho]
      rfl
    rcases (hiff e).mp ⟨ev', hev', hpend⟩ with hold | ⟨rfl, hnew⟩
    · exact .inl hold
    · have hj₀ : j₀ = j := by
        simpa [newDispatchEvent, OutboxEvent.isPendingDispatch] using hnew
      refine .inr ⟨hj₀ ▸ hno, fun e' he' => ?_⟩
      exact ((hiff e').mp he').imp_right And.left
  | update e₀ st _ ho =>
    rw [Db.event, ho, Table.find?_modify] at hev'
    split at hev'
    · rename_i hee
      subst hee
      obtain ⟨ev, hev, rfl⟩ := Option.map_eq_some_iff.mp hev'
      exact .inl ⟨ev, hev, isPendingDispatch_run hpend⟩
    · exact .inl ⟨ev', hev', hpend⟩

/-- An event that is settled is left alone. -/
theorem EventEffect.settled (h : EventEffect c c') {e : Uuid} {ev : OutboxEvent}
    (he : c.db.event e = some ev) (hp : ev.publishedAt ≠ Option.none) :
    c'.db.event e = some ev := by
  cases h with
  | none ho =>
    rw [Db.event, ho]
    exact he
  | insert e₀ j t availableAt hnone _ _ ho =>
    rw [Db.event, ho, Table.find?_insert (by exact hnone), if_neg]
    · exact he
    · intro hee
      have hee : e = e₀ := hee
      rw [hee, hnone] at he
      cases he
  | update e₀ st hg ho =>
    rw [Db.event, ho, Table.find?_modify]
    split
    · rename_i hee
      subst hee
      rw [show c.db.outbox.find? e = some ev from he, Option.map_some]
      refine congrArg some (if_neg fun hguard => ?_)
      exact hp (hg ev he hguard)
    · exact he

/-! ### The broker -/

/-- What a step does to the broker: nothing is added but one message with a new number, for a job
that is there; nothing is marked as spent but a message that was sent. -/
structure BrokerEffect (c c' : Core) : Prop where
  kept : ∀ m ∈ c'.broker, m ∈ c.broker ∨ (m.id = c.nextMsg ∧ c'.nextMsg = c.nextMsg + 1 ∧
    ∀ j, m.IsFor j → (∃ m₀ ∈ c.broker, m₀.IsFor j) ∨ (c.db.job j).isSome = true)
  unique : ∀ m ∈ c'.broker, ∀ m' ∈ c'.broker, m ∉ c.broker → m' ∉ c.broker → m = m'
  next : c.nextMsg ≤ c'.nextMsg
  spent : ∀ id ∈ c'.spent, id ∈ c.spent ∨ id < c'.nextMsg

theorem BrokerEffect.of_same (hb : c'.broker = c.broker) (hn : c'.nextMsg = c.nextMsg)
    (hs : c'.spent = c.spent) : BrokerEffect c c' :=
  ⟨fun _ hm => .inl (hb ▸ hm), fun _ hm _ _ h _ => absurd (hb ▸ hm) h, hn.ge,
    fun _ hid => .inl (hs ▸ hid)⟩

theorem BrokerEffect.of_send {body : MessageBody} (hc : c' = c.send body)
    (hj : ∀ d, body = .dispatch d → (∃ m₀ ∈ c.broker, m₀.IsFor d.jobId) ∨
      (c.db.job d.jobId).isSome = true) : BrokerEffect c c' := by
  subst hc
  refine ⟨?_, ?_, Nat.le_succ _, fun _ hid => .inl hid⟩
  · intro m hm
    rcases List.mem_cons.mp hm with rfl | hm
    · refine .inr ⟨rfl, rfl, ?_⟩
      rintro j ⟨d, hd, rfl⟩
      exact hj d hd
    · exact .inl hm
  · intro m hm m' hm' h h'
    rcases List.mem_cons.mp hm with rfl | hm
    · rcases List.mem_cons.mp hm' with rfl | hm'
      · rfl
      · exact absurd hm' h'
    · exact absurd hm h

theorem Core.Step.brokerEffect (h : Core.Step P c c') : BrokerEffect c c' := by
  cases h with
  | act => exact .of_same rfl rfl rfl
  | @spend m hid _ _ =>
    refine ⟨fun _ hm => .inl hm, fun _ hm _ _ h _ => absurd hm h, Nat.le_refl _, ?_⟩
    intro id hmem
    rcases List.mem_cons.mp hmem with rfl | hmem
    · exact .inr hid
    · exact .inl hmem
  | send hd =>
    refine .of_send rfl fun d h => .inr ?_
    cases h
    exact hd
  | drop =>
    exact ⟨fun _ hm => .inl (List.mem_of_mem_filter hm),
      fun _ hm _ _ h _ => absurd (List.mem_of_mem_filter hm) h, Nat.le_refl _,
      fun _ hid => .inl hid⟩
  | start => exact .of_same rfl rfl rfl
  | note => exact .of_same rfl rfl rfl
  | @env _ a h =>
    cases a with
    | tick d => cases h; exact .of_same rfl rfl rfl
    | register u => cases h; exact .of_same rfl rfl rfl
    | inject text => cases h; exact .of_send rfl nofun
    | duplicate m =>
      simp only [Core.env] at h
      split at h
      · rename_i hm
        cases h
        have hs : BrokerEffect c (c.send m.body) :=
          .of_send rfl fun d hd => .inl ⟨m, hm, d, hd, rfl⟩
        refine ⟨hs.kept, hs.unique, hs.next, fun id hid => ?_⟩
        simp only [Core.duplicate] at hid
        split at hid
        · rcases List.mem_cons.mp hid with rfl | hid
          · exact .inr (Nat.lt_succ_self _)
          · exact .inl hid
        · exact .inl hid
      · cases h

theorem Core.Step.users (h : Core.Step P c c') : ∀ u ∈ c.db.users, u ∈ c'.db.users := by
  intro u hu
  cases h with
  | act => rw [Core.commit_db, Db.users_applyAll]; exact hu
  | @env _ a h =>
    cases a with
    | tick d => cases h; exact hu
    | register v => cases h; exact List.mem_append_left _ hu
    | inject text => cases h; exact hu
    | duplicate m =>
      simp only [Core.env] at h
      split at h
      · cases h; exact hu
      · cases h
  | _ => exact hu

theorem Core.WellFormed.step (h : c.WellFormed) (hstep : Core.Step P c c') : c'.WellFormed := by
  have hjob := hstep.jobEffect
  have hbroker := hstep.brokerEffect
  have hmessage : ∀ {m : Message} {j : Uuid}, m ∈ c'.broker → m.IsFor j →
      (c.db.job j).isSome = true := by
    intro m j hm hj
    rcases hbroker.kept m hm with hm | ⟨-, -, hnew⟩
    · exact h.message hm hj
    · rcases hnew j hj with ⟨m₀, hm₀, hj₀⟩ | hsome
      · exact h.message hm₀ hj₀
      · exact hsome
  refine ⟨?_, ?_, ?_, fun hm hj => hjob.isSome_job (hmessage hm hj), ?_, ?_, ?_⟩
  · intro k row hk
    cases hjob with
    | none hj _ => exact hstep.users _ (h.owner (by rwa [Db.job, hj] at hk))
    | insert id owner type payload key retries createdAt updatedAt _ huser hid hj _ =>
      rw [Db.job, hj, Table.find?_insert (by exact hid)] at hk
      split at hk
      · cases hk
        exact hstep.users _ huser
      · exact hstep.users _ (h.owner hk)
    | update j st row₀ hrow hguard hallowed hj _ =>
      rw [Db.job, hj, Table.find?_modify] at hk
      split at hk
      · obtain ⟨row₁, hrow₁, rfl⟩ := Option.map_eq_some_iff.mp hk
        have hown : (st.update.run row₁).ownerId = row₁.ownerId :=
          congrArg JobIdentity.ownerId (st.update.run_identity row₁)
        rw [hown]
        exact hstep.users _ (h.owner hrow₁)
      · exact hstep.users _ (h.owner hk)
  · intro e ev' hev'
    rcases hstep.eventEffect.row_cases hev' with ⟨ev, hev, hagg, -⟩ | ⟨j, t, a, rfl, hj⟩
    · rw [hagg]
      exact hjob.isSome_job (h.aggregate hev)
    · exact hj
  · intro e ev' hev'
    rcases hstep.eventEffect.row_cases hev' with ⟨ev, hev, hagg, hpay⟩ | ⟨j, t, a, rfl, hj⟩
    · rw [hagg, hpay]
      exact h.payload hev
    · exact ⟨_, rfl, rfl, rfl⟩
  · intro m hm
    rcases hbroker.kept m hm with hm | ⟨hid, hnext, -⟩
    · exact Nat.lt_of_lt_of_le (h.sent hm) hbroker.next
    · omega
  · intro m m' hm hm' hid
    rcases hbroker.kept m hm with hmo | ⟨hmid, hnext, -⟩
    · rcases hbroker.kept m' hm' with hmo' | ⟨hmid', hnext', -⟩
      · exact h.distinct hmo hmo' hid
      · have := h.sent hmo
        omega
    · rcases hbroker.kept m' hm' with hmo' | ⟨hmid', hnext', -⟩
      · have := h.sent hmo'
        omega
      · have hnot : ∀ m₀ : Message, m₀.id = c.nextMsg → m₀ ∉ c.broker := by
          intro m₀ h₀ hm₀
          have := h.sent hm₀
          omega
        exact hbroker.unique m hm m' hm' (hnot m hmid) (hnot m' hmid')
  · intro id hid
    rcases hbroker.spent id hid with hid | hid
    · exact Nat.lt_of_lt_of_le (h.spentSent hid) hbroker.next
    · exact hid

theorem Lawful.wellFormed (h : Lawful P c) : c.WellFormed := by
  induction h with
  | init => exact ⟨nofun, nofun, nofun, nofun, nofun, nofun, nofun⟩
  | step _ hstep ih => exact ih.step hstep

/-! ## One pending dispatch -/

/-- **A job has one pending dispatch at most.** The inserts find none, and a new job has no
event. -/
theorem Lawful.pending_unique (h : Lawful P c) :
    ∀ {j e e' : Uuid}, c.db.Pending j e → c.db.Pending j e' → e = e' := by
  induction h with
  | init =>
    rintro j e e' ⟨ev, hev, -⟩
    cases hev
  | @step c c' hc hstep ih =>
    intro j e e' he he'
    -- a job that is not there has no dispatch either
    have hnone : c.db.job j = none → ∀ e, ¬ c.db.Pending j e := by
      rintro hj e ⟨ev, hev, hp⟩
      have hagg := hc.wellFormed.aggregate hev
      simp only [OutboxEvent.isPendingDispatch, Bool.and_eq_true, beq_iff_eq] at hp
      rw [hp.1.1, hj] at hagg
      cases hagg
    rcases hstep.eventEffect.pending_cases he with hold | ⟨hno, hall⟩
    · rcases hstep.eventEffect.pending_cases he' with hold' | ⟨hno', -⟩
      · exact ih hold hold'
      · exact absurd hold (hno'.elim (fun hj => hnone hj e) fun h => h e)
    · rcases hall e' he' with hold' | heq
      · exact absurd hold' (hno.elim (fun hj => hnone hj e') fun h => h e')
      · exact heq.symm

/-! ## Coverage -/

/-- Something will wake the job up. -/
structure Core.CoveredAt (c : Core) (j : Uuid) (row : Job) : Prop where
  pending : row.status = .pending → ∃ e, c.db.Pending j e
  queued : row.status = .queued → (∃ e, c.db.Pending j e) ∨ c.Unspent j

def Core.Covered (c : Core) : Prop := ∀ j row, c.db.job j = some row → c.CoveredAt j row

/-- A job that is neither pending nor queued needs no waking up. -/
theorem Core.CoveredAt.of_status {j : Uuid} {row : Job} (hp : row.status ≠ .pending)
    (hq : row.status ≠ .queued) : c.CoveredAt j row :=
  ⟨fun h => absurd h hp, fun h => absurd h hq⟩

theorem Core.CoveredAt.of_pending {j e : Uuid} {row : Job} (h : c.db.Pending j e) :
    c.CoveredAt j row :=
  ⟨fun _ => ⟨e, h⟩, fun _ => .inl ⟨e, h⟩⟩

/-- A row that stays, with its pending events and its messages. -/
theorem Core.CoveredAt.keep {j : Uuid} {row : Job} (h : c.CoveredAt j row)
    (hp : ∀ e, c.db.Pending j e → c'.db.Pending j e) (hu : c.Unspent j → c'.Unspent j) :
    c'.CoveredAt j row := by
  refine ⟨fun hs => ?_, fun hs => ?_⟩
  · obtain ⟨e, he⟩ := h.pending hs
    exact ⟨e, hp e he⟩
  · rcases h.queued hs with ⟨e, he⟩ | hun
    · exact .inl ⟨e, hp e he⟩
    · exact .inr (hu hun)

/-- An action on the job `j`, with the obligation for `j` left over. -/
theorem Core.Covered.commit (h : c.Covered) {p : Pid} {l : List Stmt} (j : Uuid)
    (hrow : ∀ k, k ≠ j → (c.db.applyAll l).job k = c.db.job k)
    (hp : ∀ k, k ≠ j → ∀ e, c.db.Pending k e → (c.db.applyAll l).Pending k e)
    (hj : ∀ row, (c.db.applyAll l).job j = some row → (c.commit p l).CoveredAt j row) :
    (c.commit p l).Covered := by
  intro k row hk
  by_cases hkj : k = j
  · subst hkj
    exact hj row hk
  · refine (h k row ?_).keep (hp k hkj) id
    rw [← hrow k hkj]
    exact hk

/-- A job statement touches one row and no event. -/
theorem Core.Covered.commit_job (h : c.Covered) {p : Pid} {j : Uuid} {st : JobStmt} {row : Job}
    {l : List Stmt} (hrow : c.db.job j = some row) (hguard : st.update.guard row = true)
    (hl : ∀ db : Db, (∀ k, (db.applyAll l).job k = db.job k) ∧
      ∀ k e, db.Pending k e → (db.applyAll l).Pending k e)
    (hj : (c.commit p (.updateJob j st :: l)).CoveredAt j (st.update.set row)) :
    (c.commit p (.updateJob j st :: l)).Covered := by
  refine h.commit j (fun k hk => ?_) (fun k _ e he => (hl _).2 k e he) fun row' hrow' => ?_
  · rw [Db.applyAll_cons, (hl _).1, job_updateJob, if_neg hk]
  · rw [Db.applyAll_cons, (hl _).1, job_updateJob, if_pos rfl, hrow, Option.map_some,
      JobUpdate.run_of_guard hguard] at hrow'
    cases hrow'
    exact hj

theorem Redispatch.pending {j : Uuid} {at' : Datetime} {l : List Stmt} (h : Redispatch c j at' l)
    {db : Db} (hdb : ∀ e, db.event e = c.db.event e) (log : JobLog) :
    (∀ k, (db.applyAll (l ++ [.insertLog log])).job k = db.job k) ∧
    (∀ k e, db.Pending k e → (db.applyAll (l ++ [.insertLog log])).Pending k e) ∧
    ∃ e, (db.applyAll (l ++ [.insertLog log])).Pending j e := by
  cases h with
  | @existing e he =>
    refine ⟨fun k => rfl, fun k e he => he, e, ?_⟩
    obtain ⟨ev, hev, hp⟩ := he
    exact ⟨ev, by rw [← hdb] at hev; exact hev, hp⟩
  | @new e t _ he =>
    have hfresh : db.event (newDispatchEvent e j t at').id = none := by rw [hdb]; exact he
    refine ⟨fun k => rfl, fun k e' he' => ?_, e, ?_⟩
    · exact (pending_insertEvent hfresh k).mpr (.inl he')
    · exact (pending_insertEvent hfresh j).mpr
        (.inr ⟨rfl, by simp [newDispatchEvent, OutboxEvent.isPendingDispatch]⟩)

theorem Core.Covered.close (h : c.Covered) {j : Uuid} {l : List Stmt} (hcl : Closing P c j l)
    (p : Pid) : (c.commit p l).Covered := by
  have hguard : ∀ {token : Uuid} {row : Job}, c.RunsAs j token row →
      (row.status == .running && row.executionToken == some token) = true := by
    intro token row h
    simp [h.running, h.token]
  have hlog : ∀ log : JobLog, ∀ db : Db, (∀ k, (db.applyAll [.insertLog log]).job k = db.job k) ∧
      ∀ k e, db.Pending k e → (db.applyAll [.insertLog log]).Pending k e :=
    fun log db => ⟨fun k => rfl, fun k e he => he⟩
  -- the row that was requeued is covered by the event that is there or was put there
  have hrequeue : ∀ {token : Uuid} {now at' : Datetime} {error : String} {row : Job}
    {ev : List Stmt}
      (log : JobLog), c.RunsAs j token row → Redispatch c j at' ev →
      (c.commit p (.updateJob j (.requeueRunning token now error) ::
        (ev ++ [.insertLog log]))).Covered := by
    intro token now at' error row ev log hr hev
    have hsame : ∀ e, (Stmt.apply c.db (.updateJob j (.requeueRunning token now error))).event e =
      c.db.event e := fun e => rfl
    have hp := hev.pending hsame log
    refine h.commit j (fun k hk => ?_) (fun k _ e he => hp.2.1 k e he) fun row' _ => ?_
    · rw [Db.applyAll_cons, hp.1, job_updateJob, if_neg hk]
    · obtain ⟨e, he⟩ := hp.2.2
      exact .of_pending he
  cases hcl with
  | completed hr => exact h.commit_job hr.found (hguard hr) (hlog _) (.of_status nofun nofun)
  | cancelled hr => exact h.commit_job hr.found (hguard hr) (hlog _) (.of_status nofun nofun)
  | failed hr => exact h.commit_job hr.found (hguard hr) (hlog _) (.of_status nofun nofun)
  | staleFailed hr => exact h.commit_job hr.found (hguard hr) (hlog _) (.of_status nofun nofun)
  | retried hr _ _ _ hev => exact hrequeue _ hr hev
  | staleRequeued hr _ _ _ hev => exact hrequeue _ hr hev

/-- Publishing an event takes it from its own job only. -/
theorem pending_markPublished_of_ne {db : Db} {j k e e' : Uuid} {now : Datetime}
    (he : db.Pending j e) (hk : k ≠ j) (h : db.Pending k e') :
    (Stmt.apply db (.updateEvent e (.markPublished now))).Pending k e' := by
  refine (pending_markPublished e now k).mpr ⟨h, ?_⟩
  rintro rfl
  exact hk (h.unique he)

theorem Core.Covered.act (h : c.Covered) {l : List Stmt} (ha : Action P c l) (p : Pid) :
    (c.commit p l).Covered := by
  have hlog : ∀ log : JobLog, ∀ db : Db, (∀ k, (db.applyAll [.insertLog log]).job k = db.job k) ∧
      ∀ k e, db.Pending k e → (db.applyAll [.insertLog log]).Pending k e :=
    fun log db => ⟨fun k => rfl, fun k e he => he⟩
  cases ha with
  | @create id e owner type payload key retries createdAt updatedAt t t' at' _ _ hid he _ _ =>
    have hnew : ∀ k, (Stmt.apply c.db (.insertJob (newPendingJob id owner type payload key
        (P.buildRequestHash type payload) retries createdAt updatedAt))).job k =
        if k = id then some (newPendingJob id owner type payload key
          (P.buildRequestHash type payload) retries createdAt updatedAt) else c.db.job k :=
      fun k => job_insertJob (by exact hid)
    refine h.commit id (fun k hk => ?_) (fun k _ e' he' => ?_) fun row _ => ?_
    · exact (hnew k).trans (if_neg hk)
    · exact (pending_insertEvent (by exact he) k).mpr (.inl he')
    · refine .of_pending (e := e) ((pending_insertEvent (by exact he) id).mpr (.inr ⟨rfl, ?_⟩))
      simp [newDispatchEvent, OutboxEvent.isPendingDispatch]
  | @queue e j row now now' hd hs hun _ =>
    refine h.commit j (fun k hk => ?_) (fun k hk e' he' => ?_) fun row' hrow' => ?_
    · rw [Db.applyAll_cons, Db.applyAll_cons, Db.applyAll_nil, job_updateEvent, job_updateJob,
        if_neg hk]
    · exact pending_markPublished_of_ne (by exact hd.pending) hk he'
    · rw [Db.applyAll_cons, Db.applyAll_cons, Db.applyAll_nil, job_updateEvent, job_updateJob,
        if_pos rfl, hd.found, Option.map_some,
        JobUpdate.run_of_guard (by simp [JobStmt.update, markQueued, hs])] at hrow'
      cases hrow'
      exact ⟨fun hp => (by cases hp), fun _ => .inr hun⟩
  | @republish e j row now hd hs hun =>
    refine h.commit j (fun k hk => rfl) (fun k hk e' he' => ?_) fun row' hrow' => ?_
    · exact pending_markPublished_of_ne hd.pending hk he'
    · have hrow : row' = row := by
        have : c.db.job j = some row' := hrow'
        rw [hd.found] at this
        cases this
        rfl
      rw [hrow]
      exact ⟨fun hp => absurd (hs.symm.trans hp) (by decide), fun _ => .inr hun⟩
  | @discard e j row now t hd hs =>
    refine h.commit j (fun k hk => rfl) (fun k hk e' he' => ?_) fun row' hrow' => ?_
    · exact pending_markPublished_of_ne (by exact hd.pending) hk he'
    · have hrow : row' = row := by
        have : c.db.job j = some row' := hrow'
        rw [hd.found] at this
        cases this
        rfl
      rw [hrow]
      refine .of_status ?_ ?_ <;> intro heq <;> rw [heq] at hs <;> cases hs
  | @recordFailure e error next now =>
    intro k row hk
    exact (h k row hk).keep
      (fun e' he' => (pending_recordPublishFailure e error next now k).mpr he') id
  | claim hr hs =>
    exact h.commit_job hr (by simp [JobStmt.update, markRunning, hs]) (hlog _)
      (.of_status (fun heq => by cases heq) fun heq => by cases heq)
  | idle => exact h
  | @defer e j row now t t' hr hs _ he _ =>
    intro k row hk
    exact (h k row hk).keep (fun e' he' => (pending_insertEvent (by exact he) k).mpr (.inl he')) id
  | close hcl => exact h.close hcl p
  | cancel hr hs =>
    exact h.commit_job hr (by simpa [JobStmt.update, cancelPendingOrQueued] using hs) (hlog _)
      (.of_status (fun heq => by cases heq) fun heq => by cases heq)
  | @requestCancel j row now t hr hs hc =>
    refine h.commit_job hr (by simp [JobStmt.update, requestRunningCancellation, hs, hc]) (hlog _)
      (.of_status ?_ ?_)
    · intro heq
      exact absurd (hs.symm.trans heq) (by decide)
    · intro heq
      exact absurd (hs.symm.trans heq) (by decide)

/-- A step that leaves the tables alone and loses no unspent message. -/
theorem Core.Covered.of_tables (h : c.Covered) (hj : c'.db.jobs = c.db.jobs)
    (ho : c'.db.outbox = c.db.outbox)
    (hu : ∀ j row, c.db.job j = some row → row.status = .queued → c.Unspent j →
      (∃ e, c.db.Pending j e) ∨ c'.Unspent j) : c'.Covered := by
  intro k row hk
  have hk₀ : c.db.job k = some row := by rwa [Db.job, hj] at hk
  have hpend : ∀ e, c'.db.Pending k e ↔ c.db.Pending k e := by
    intro e
    unfold Db.Pending Db.event
    rw [ho]
  refine ⟨fun hs => ?_, fun hs => ?_⟩
  · obtain ⟨e, he⟩ := (h k row hk₀).pending hs
    exact ⟨e, (hpend e).mpr he⟩
  · rcases (h k row hk₀).queued hs with ⟨e, he⟩ | hun
    · exact .inl ⟨e, (hpend e).mpr he⟩
    · rcases hu k row hk₀ hs hun with ⟨e, he⟩ | hun'
      · exact .inl ⟨e, (hpend e).mpr he⟩
      · exact .inr hun'

theorem Core.Covered.step (hw : c.WellFormed) (h : c.Covered) (hstep : Core.Step P c c') :
    c'.Covered := by
  have hsend : ∀ {j : Uuid} {body : MessageBody} {s : List Nat},
      (∀ id ∈ s, id ∈ c.spent ∨ id = c.nextMsg) → c.Unspent j →
      Core.Unspent { c.send body with spent := s } j := by
    rintro j body s hs ⟨m, hm, hfor, hns⟩
    refine ⟨m, List.mem_cons_of_mem _ hm, hfor, fun hmem => ?_⟩
    rcases hs m.id hmem with hin | heq
    · exact hns hin
    · have := hw.sent hm
      omega
  cases hstep with
  | act p ha => exact h.act ha p
  | @spend m hlt huniq hok =>
    refine h.of_tables rfl rfl ?_
    rintro j row hrow hs ⟨m', hm', hfor, hns⟩
    by_cases hid : m'.id = m.id
    · -- the message that counted is the one being spent
      have hmm := huniq m' hm' hid
      subst hmm
      rcases hok with hin | hdisp
      · exact absurd hin hns
      · exact .inl (hdisp j hfor row hrow hs)
    · exact .inr ⟨m', hm', hfor, fun hmem => (List.mem_cons.mp hmem).elim hid hns⟩
  | send => exact h.of_tables rfl rfl fun j _ _ _ hun => .inr (hsend (fun _ hid => .inl hid) hun)
  | @drop id hok =>
    refine h.of_tables rfl rfl ?_
    rintro j row hrow hs ⟨m, hm, hfor, hns⟩
    refine .inr ⟨m, List.mem_filter.mpr ⟨hm, ?_⟩, hfor, hns⟩
    refine decide_eq_true fun hid => ?_
    rcases hok m hm hid with hin | hno
    · exact hns hin
    · exact hno j hfor
  | start => exact h.of_tables rfl rfl fun _ _ _ _ hun => .inr hun
  | note => exact h.of_tables rfl rfl fun _ _ _ _ hun => .inr hun
  | @env _ a he =>
    obtain ⟨hj, ho, -⟩ := Core.env_cases he
    refine h.of_tables hj ho fun j _ _ _ hun => .inr ?_
    cases a with
    | tick d => cases he; exact hun
    | register u => cases he; exact hun
    | inject text => cases he; exact hsend (fun _ hid => .inl hid) hun
    | duplicate m =>
      simp only [Core.env] at he
      split at he
      · cases he
        refine hsend (fun id hid => ?_) hun
        split at hid
        · exact (List.mem_cons.mp hid).symm
        · exact .inl hid
      · cases he

/-- **Coverage.** -/
theorem Lawful.covered (h : Lawful P c) : c.Covered := by
  induction h with
  | init => intro j row hj; cases hj
  | step hc hstep ih => exact ih.step hc.wellFormed hstep

end CloudJob
