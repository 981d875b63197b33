import CloudJob.Runtime

/-!
# `Frame.lean` — what a list of statements leaves alone

A transaction changes the rows it locked and nothing else. For each thing another process may want
to rely on — a row, whether a key is taken, which dispatches of a job are pending, how many jobs of
an owner run, who holds a token — this file says under which condition on the statements a whole
list of them leaves it as it was. The conditions are the ones a lock on the right row gives. -/

set_option autoImplicit false

namespace CloudJob

open Lib

variable {db : Db} {l : List Stmt} {j e o : Uuid}

/-- What every statement of the list keeps, the list keeps. -/
theorem Db.applyAll_keeps {R : Db → Prop} :
    ∀ {l : List Stmt} {db : Db}, (∀ st ∈ l, ∀ db, R db → R (Stmt.apply db st)) → R db →
      R (db.applyAll l)
  | [], _, _, h => h
  | st :: l, db, hst, h => by
    rw [Db.applyAll_cons]
    exact Db.applyAll_keeps (fun st' hm => hst st' (List.mem_cons_of_mem _ hm))
      (hst st List.mem_cons_self db h)

/-! ## Rows stay -/

theorem job_insertJob_of_ne {job : Job} (h : j ≠ job.id) :
    (Stmt.apply db (.insertJob job)).job j = db.job j := by
  by_cases hid : db.job job.id = none
  · rw [job_insertJob hid, if_neg h]
  · have hmem : job.id ∈ db.jobs.rows.map Job.id := by
      obtain ⟨row, hrow⟩ := Option.ne_none_iff_exists'.mp hid
      exact List.mem_map.mpr ⟨row, Table.mem_of_find? hrow, Db.job_id hrow⟩
    simp [Stmt.apply, Table.insert, hmem, Db.job]

theorem event_insertEvent_of_ne {ev : OutboxEvent} (h : e ≠ ev.id) :
    (Stmt.apply db (.insertEvent ev)).event e = db.event e := by
  by_cases hid : db.event ev.id = none
  · rw [event_insertEvent hid, if_neg h]
  · have hmem : ev.id ∈ db.outbox.rows.map OutboxEvent.id := by
      obtain ⟨row, hrow⟩ := Option.ne_none_iff_exists'.mp hid
      exact List.mem_map.mpr ⟨row, Table.mem_of_find? hrow, Db.event_id hrow⟩
    simp [Stmt.apply, Table.insert, hmem, Db.event]

/-- An insert of a key that is taken does nothing. -/
theorem insertEvent_of_isSome {ev : OutboxEvent} (h : db.event ev.id ≠ none) :
    Stmt.apply db (.insertEvent ev) = db := by
  have hmem : ev.id ∈ db.outbox.rows.map OutboxEvent.id := by
    obtain ⟨row, hrow⟩ := Option.ne_none_iff_exists'.mp h
    exact List.mem_map.mpr ⟨row, Table.mem_of_find? hrow, Db.event_id hrow⟩
  simp [Stmt.apply, Table.insert, hmem]

theorem insertJob_of_isSome {job : Job} (h : db.job job.id ≠ none) :
    Stmt.apply db (.insertJob job) = db := by
  have hmem : job.id ∈ db.jobs.rows.map Job.id := by
    obtain ⟨row, hrow⟩ := Option.ne_none_iff_exists'.mp h
    exact List.mem_map.mpr ⟨row, Table.mem_of_find? hrow, Db.job_id hrow⟩
  simp [Stmt.apply, Table.insert, hmem]

/-- The row of a job none of the statements is about. -/
theorem job_applyAll (h : ∀ st ∈ l, LockRow.job j ∉ st.rows) :
    (db.applyAll l).job j = db.job j := by
  refine Db.applyAll_keeps (R := fun db' => db'.job j = db.job j) (fun st hst db' hdb => ?_) rfl
  have hrow := h st hst
  rw [← hdb]
  cases st with
  | insertJob job =>
    refine job_insertJob_of_ne fun hj => hrow ?_
    simp [Stmt.rows, hj]
  | updateJob id st =>
    rw [job_updateJob, if_neg]
    rintro rfl
    exact hrow (by simp [Stmt.rows])
  | insertLog => rfl
  | insertEvent => rfl
  | updateEvent => rfl

theorem event_applyAll (h : ∀ st ∈ l, LockRow.event e ∉ st.rows) :
    (db.applyAll l).event e = db.event e := by
  refine Db.applyAll_keeps (R := fun db' => db'.event e = db.event e) (fun st hst db' hdb => ?_) rfl
  have hrow := h st hst
  rw [← hdb]
  cases st with
  | insertEvent ev =>
    refine event_insertEvent_of_ne fun he => hrow ?_
    simp [Stmt.rows, he]
  | updateEvent id st =>
    rw [event_updateEvent, if_neg]
    rintro rfl
    exact hrow (by simp [Stmt.rows])
  | insertLog => rfl
  | insertJob => rfl
  | updateJob => rfl

/-- A job that is there stays, with its identity. -/
theorem job_apply_stays {row : Job} (st : Stmt) (h : db.job j = some row) :
    ∃ row', (Stmt.apply db st).job j = some row' ∧ row'.identity = row.identity := by
  cases st with
  | insertJob job =>
    by_cases hid : j = job.id
    · rw [insertJob_of_isSome (by rw [← hid, h]; nofun)]
      exact ⟨row, h, rfl⟩
    · exact ⟨row, (job_insertJob_of_ne hid).trans h, rfl⟩
  | updateJob id st =>
    rw [job_updateJob]
    split
    · rename_i hid
      rw [← hid, h]
      exact ⟨_, rfl, st.update.run_identity row⟩
    · exact ⟨row, h, rfl⟩
  | insertLog => exact ⟨row, h, rfl⟩
  | insertEvent => exact ⟨row, h, rfl⟩
  | updateEvent => exact ⟨row, h, rfl⟩

theorem job_applyAll_stays {row : Job} (h : db.job j = some row) :
    ∃ row', (db.applyAll l).job j = some row' ∧ row'.identity = row.identity := by
  refine Db.applyAll_keeps (R := fun db' => ∃ row', db'.job j = some row' ∧
    row'.identity = row.identity) ?_ ⟨row, h, rfl⟩
  rintro st - db' ⟨row', hrow', hid⟩
  obtain ⟨row'', hrow'', hid'⟩ := job_apply_stays st hrow'
  exact ⟨row'', hrow'', hid'.trans hid⟩

theorem event_apply_stays {ev : OutboxEvent} (st : Stmt) (h : db.event e = some ev) :
    ∃ ev', (Stmt.apply db st).event e = some ev' ∧ ev'.aggregateId = ev.aggregateId ∧
      ev'.payload = ev.payload := by
  cases st with
  | insertEvent new =>
    by_cases hid : e = new.id
    · rw [insertEvent_of_isSome (by rw [← hid, h]; nofun)]
      exact ⟨ev, h, rfl, rfl⟩
    · exact ⟨ev, (event_insertEvent_of_ne hid).trans h, rfl, rfl⟩
  | updateEvent id st =>
    rw [event_updateEvent]
    split
    · rename_i hid
      rw [← hid, h]
      obtain ⟨-, hagg, -, hpay⟩ := st.update.run_keeps ev
      exact ⟨_, rfl, hagg, hpay⟩
    · exact ⟨ev, h, rfl, rfl⟩
  | insertLog => exact ⟨ev, h, rfl, rfl⟩
  | insertJob => exact ⟨ev, h, rfl, rfl⟩
  | updateJob => exact ⟨ev, h, rfl, rfl⟩

theorem event_applyAll_stays {ev : OutboxEvent} (h : db.event e = some ev) :
    ∃ ev', (db.applyAll l).event e = some ev' ∧ ev'.aggregateId = ev.aggregateId ∧
      ev'.payload = ev.payload := by
  refine Db.applyAll_keeps (R := fun db' => ∃ ev', db'.event e = some ev' ∧
    ev'.aggregateId = ev.aggregateId ∧ ev'.payload = ev.payload) ?_ ⟨ev, h, rfl, rfl⟩
  rintro st - db' ⟨ev', hev', hagg, hpay⟩
  obtain ⟨ev'', hev'', hagg', hpay'⟩ := event_apply_stays st hev'
  exact ⟨ev'', hev'', hagg'.trans hagg, hpay'.trans hpay⟩

/-- An event that is inserted is there. -/
theorem event_applyAll_inserted {ev : OutboxEvent} (h : .insertEvent ev ∈ l) :
    (db.applyAll l).event ev.id ≠ none := by
  obtain ⟨l₁, l₂, rfl⟩ := List.append_of_mem h
  have hsome : ∃ ev', (Stmt.apply (db.applyAll l₁) (.insertEvent ev)).event ev.id = some ev' := by
    by_cases hid : (db.applyAll l₁).event ev.id = none
    · exact ⟨ev, by rw [event_insertEvent hid, if_pos rfl]⟩
    · rw [insertEvent_of_isSome hid]
      exact Option.ne_none_iff_exists'.mp hid
  obtain ⟨ev', hev'⟩ := hsome
  obtain ⟨ev'', hev'', -⟩ := event_applyAll_stays (l := l₂) hev'
  rw [Db.applyAll_append, Db.applyAll_cons, hev'']
  nofun

/-- When an event is available: as before, as it was inserted for, or later after a failure. -/
theorem event_applyAll_available {ev' : OutboxEvent} (h : (db.applyAll l).event e = some ev') :
    (∃ error next now, .updateEvent e (.recordPublishFailure error next now) ∈ l) ∨
    (∃ ev, db.event e = some ev ∧ ev.availableAt = ev'.availableAt) ∨
    ∃ ev, .insertEvent ev ∈ l ∧ ev.id = e ∧ ev.availableAt = ev'.availableAt := by
  refine Db.applyAll_keeps (R := fun db' => ∀ ev', db'.event e = some ev' →
    (∃ error next now, .updateEvent e (.recordPublishFailure error next now) ∈ l) ∨
    (∃ ev, db.event e = some ev ∧ ev.availableAt = ev'.availableAt) ∨
    ∃ ev, .insertEvent ev ∈ l ∧ ev.id = e ∧ ev.availableAt = ev'.availableAt) ?_
    (fun ev' hev' => .inr (.inl ⟨ev', hev', rfl⟩)) ev' h
  intro st hst db' hdb ev' hev'
  cases st with
  | insertEvent new =>
    by_cases hid : db'.event new.id = none
    · rw [event_insertEvent hid] at hev'
      split at hev'
      · rename_i heq
        cases hev'
        exact .inr (.inr ⟨_, hst, heq.symm, rfl⟩)
      · exact hdb ev' hev'
    · rw [insertEvent_of_isSome hid] at hev'
      exact hdb ev' hev'
  | updateEvent id est =>
    rw [event_updateEvent] at hev'
    split at hev'
    · rename_i hid
      subst hid
      obtain ⟨ev, hev, rfl⟩ := Option.map_eq_some_iff.mp hev'
      cases est with
      | recordPublishFailure error next now => exact .inl ⟨error, next, now, hst⟩
      | markPublished now => exact hdb ev hev
    · exact hdb ev' hev'
  | insertJob job => exact hdb ev' hev'
  | insertLog log => exact hdb ev' hev'
  | updateJob id st => exact hdb ev' hev'

/-! ## Rows stay absent -/

/-- The uuids a statement gives to a new row. -/
def Stmt.introduces : Stmt → Option Uuid
  | .insertJob job => some job.id
  | .insertEvent ev => some ev.id
  | _ => none

theorem job_applyAll_none (h : ∀ st ∈ l, st.introduces ≠ some j) (hj : db.job j = none) :
    (db.applyAll l).job j = none := by
  refine Db.applyAll_keeps (R := fun db' => db'.job j = none) (fun st hst db' hdb => ?_) hj
  have hnew := h st hst
  cases st with
  | insertJob job =>
    rw [job_insertJob_of_ne (fun hid => hnew (by simp [Stmt.introduces, hid])), hdb]
  | updateJob id st =>
    rw [job_updateJob]
    split
    · rename_i hid
      rw [← hid, hdb]
      rfl
    · exact hdb
  | insertLog => exact hdb
  | insertEvent => exact hdb
  | updateEvent => exact hdb

theorem event_applyAll_none (h : ∀ st ∈ l, st.introduces ≠ some e) (he : db.event e = none) :
    (db.applyAll l).event e = none := by
  refine Db.applyAll_keeps (R := fun db' => db'.event e = none) (fun st hst db' hdb => ?_) he
  have hnew := h st hst
  cases st with
  | insertEvent ev =>
    rw [event_insertEvent_of_ne (fun hid => hnew (by simp [Stmt.introduces, hid])), hdb]
  | updateEvent id st =>
    rw [event_updateEvent]
    split
    · rename_i hid
      rw [← hid, hdb]
      rfl
    · exact hdb
  | insertLog => exact hdb
  | insertJob => exact hdb
  | updateJob => exact hdb

/-- A key that is free stays free under statements that do not lock it. -/
theorem jobByKey_applyAll_none {key : String} (h : ∀ st ∈ l, LockRow.jobKey o key ∉ st.rows)
    (hk : db.jobByKey o key = none) : (db.applyAll l).jobByKey o key = none := by
  refine Db.applyAll_keeps (R := fun db' => db'.jobByKey o key = none) (fun st hst db' hdb => ?_) hk
  have hrow := h st hst
  rw [Db.jobByKey_eq_none] at hdb ⊢
  intro k row hkrow
  cases st with
  | insertJob job =>
    by_cases hid : db'.job job.id = none
    · rw [job_insertJob hid] at hkrow
      split at hkrow
      · cases hkrow
        rintro ⟨rfl, rfl⟩
        exact hrow (by simp [Stmt.rows])
      · exact hdb k row hkrow
    · rw [insertJob_of_isSome hid] at hkrow
      exact hdb k row hkrow
  | updateJob id st =>
    rw [job_updateJob] at hkrow
    split at hkrow
    · obtain ⟨row₀, hrow₀, rfl⟩ := Option.map_eq_some_iff.mp hkrow
      have hi := st.update.run_identity row₀
      rw [show (st.update.run row₀).ownerId = row₀.ownerId from congrArg JobIdentity.ownerId hi,
        show (st.update.run row₀).idempotencyKey = row₀.idempotencyKey from
          congrArg JobIdentity.idempotencyKey hi]
      exact hdb _ row₀ hrow₀
    · exact hdb k row hkrow
  | insertLog => exact hdb k row hkrow
  | insertEvent => exact hdb k row hkrow
  | updateEvent => exact hdb k row hkrow

/-! ## Pending dispatches -/

/-- The statement inserts or publishes no dispatch of job `j`. -/
def Stmt.Apart (db : Db) (j : Uuid) : Stmt → Prop
  | .insertEvent ev => ev.aggregateId ≠ j
  | .updateEvent e (.markPublished _) => ∀ ev, db.event e = some ev → ev.aggregateId ≠ j
  | _ => True

theorem Stmt.Apart.apply {st st' : Stmt} (h : st.Apart db j) (h' : st'.Apart db j) :
    st'.Apart (Stmt.apply db st) j := by
  cases st' with
  | insertEvent => exact h'
  | updateEvent e est =>
    cases est with
    | recordPublishFailure => trivial
    | markPublished now =>
      intro ev hev
      cases st with
      | insertEvent new =>
        by_cases hid : db.event new.id = none
        · rw [event_insertEvent hid] at hev
          split at hev
          · cases hev
            exact h
          · exact h' ev hev
        · rw [insertEvent_of_isSome hid] at hev
          exact h' ev hev
      | updateEvent id st =>
        rw [event_updateEvent] at hev
        split at hev
        · rename_i hid
          obtain ⟨ev₀, hev₀, rfl⟩ := Option.map_eq_some_iff.mp hev
          rw [(st.update.run_keeps ev₀).2.1]
          exact h' ev₀ (hid ▸ hev₀)
        · exact h' ev hev
      | insertJob => exact h' ev hev
      | insertLog => exact h' ev hev
      | updateJob => exact h' ev hev
  | insertJob => trivial
  | insertLog => trivial
  | updateJob => trivial

theorem pending_apply {st : Stmt} (h : st.Apart db j) :
    (Stmt.apply db st).Pending j e ↔ db.Pending j e := by
  cases st with
  | insertEvent ev =>
    by_cases hid : db.event ev.id = none
    · rw [pending_insertEvent hid]
      refine ⟨fun hor => hor.elim id ?_, .inl⟩
      rintro ⟨-, hp⟩
      simp only [OutboxEvent.isPendingDispatch, Bool.and_eq_true, beq_iff_eq] at hp
      exact absurd hp.1.1 h
    · rw [insertEvent_of_isSome hid]
  | updateEvent id st =>
    cases st with
    | recordPublishFailure => exact pending_recordPublishFailure _ _ _ _ _
    | markPublished now =>
      rw [pending_markPublished]
      refine ⟨And.left, fun hp => ⟨hp, ?_⟩⟩
      rintro rfl
      obtain ⟨ev, hev, hpd⟩ := hp
      simp only [OutboxEvent.isPendingDispatch, Bool.and_eq_true, beq_iff_eq] at hpd
      exact h ev hev hpd.1.1
  | insertJob => exact Iff.rfl
  | insertLog => exact Iff.rfl
  | updateJob => exact Iff.rfl

theorem pending_applyAll : ∀ {l : List Stmt} {db : Db}, (∀ st ∈ l, st.Apart db j) →
    ((db.applyAll l).Pending j e ↔ db.Pending j e)
  | [], _, _ => Iff.rfl
  | st :: l, db, h => by
    rw [Db.applyAll_cons, pending_applyAll fun st' hm =>
      (h st List.mem_cons_self).apply (h st' (List.mem_cons_of_mem _ hm))]
    exact pending_apply (h st List.mem_cons_self)

/-- A dispatch stays pending until it is marked published. -/
theorem pending_applyAll_stays (h : db.Pending j e)
    (hl : ∀ now, .updateEvent e (.markPublished now) ∉ l) : (db.applyAll l).Pending j e := by
  refine Db.applyAll_keeps (R := fun db => db.Pending j e) (fun st hst db' hp => ?_) h
  cases st with
  | insertEvent ev =>
    by_cases hid : db'.event ev.id = none
    · exact (pending_insertEvent hid j).mpr (.inl hp)
    · rwa [insertEvent_of_isSome hid]
  | updateEvent id est =>
    cases est with
    | recordPublishFailure => exact (pending_recordPublishFailure _ _ _ _ _).mpr hp
    | markPublished now =>
      refine (pending_markPublished ..).mpr ⟨hp, ?_⟩
      rintro rfl
      exact hl now hst
  | insertJob => exact hp
  | insertLog => exact hp
  | updateJob => exact hp

/-! ## Running jobs -/

/-- The statement makes no job of owner `o` run. -/
def Stmt.SparesOwner (db : Db) (o : Uuid) : Stmt → Prop
  | .updateJob j st => st.issues.isSome = true → ∃ row, db.job j = some row ∧ row.ownerId ≠ o
  | .insertJob job => job.status ≠ .running
  | _ => True

theorem isRunningOf_run {st : JobStmt} {row : Job}
    (h : st.issues.isSome = true → row.ownerId ≠ o)
    (hset : (st.update.run row).isRunningOf o = true) : row.isRunningOf o = true := by
  unfold JobUpdate.run at hset
  split at hset
  · cases st with
    | markRunning w token now lease =>
      simp only [Job.isRunningOf, JobStmt.update, markRunning, Bool.and_eq_true, beq_iff_eq] at hset
      exact absurd hset.1 (h rfl)
    | requestRunningCancellation now => exact hset
    | _ => simp [Job.isRunningOf, JobStmt.update, markQueued, markCompleted, markFailed,
        requeueRunning, markCancelled, markFailedWithoutExecution, cancelPendingOrQueued,
        whileRunningAs, Job.release] at hset
  · exact hset

theorem runningCount_apply_le {st : Stmt} (h : st.SparesOwner db o) :
    (Stmt.apply db st).runningCount o ≤ db.runningCount o := by
  cases st with
  | insertJob job =>
    refine (Table.count_insert_of_false ?_).le
    have hne : job.status ≠ .running := h
    simp [Job.isRunningOf, hne]
  | updateJob id st =>
    cases hrow : db.job id with
    | none => exact (Table.count_modify_of_none st.update.run_id hrow _).le
    | some row =>
      have hcount := Table.count_modify st.update.run_id hrow (Job.isRunningOf o)
      have hown : st.issues.isSome = true → row.ownerId ≠ o := by
        intro hi
        obtain ⟨row', hrow', hne⟩ := h hi
        rw [hrow] at hrow'
        cases hrow'
        exact hne
      have hle : ((st.update.run row).isRunningOf o).toNat ≤ (row.isRunningOf o).toNat := by
        cases hset : (st.update.run row).isRunningOf o with
        | false => exact Nat.zero_le _
        | true => rw [isRunningOf_run hown hset]
      show (db.jobs.modify id st.update.run st.update.run_id).count (Job.isRunningOf o) ≤
        db.jobs.count (Job.isRunningOf o)
      omega
  | insertLog => exact Nat.le_refl _
  | insertEvent => exact Nat.le_refl _
  | updateEvent => exact Nat.le_refl _

theorem Stmt.SparesOwner.apply {st st' : Stmt} (h : st'.SparesOwner db o) :
    st'.SparesOwner (Stmt.apply db st) o := by
  cases st' with
  | updateJob j jst =>
    intro hi
    obtain ⟨row, hrow, hne⟩ := h hi
    obtain ⟨row', hrow', hid⟩ := job_apply_stays st hrow
    exact ⟨row', hrow', by rwa [show row'.ownerId = row.ownerId from
      congrArg JobIdentity.ownerId hid]⟩
  | insertJob => exact h
  | insertLog => trivial
  | insertEvent => trivial
  | updateEvent => trivial

theorem runningCount_applyAll_le : ∀ {l : List Stmt} {db : Db}, (∀ st ∈ l, st.SparesOwner db o) →
    (db.applyAll l).runningCount o ≤ db.runningCount o
  | [], _, _ => Nat.le_refl _
  | st :: l, db, h => by
    rw [Db.applyAll_cons]
    exact (runningCount_applyAll_le fun st' hm => (h st' (List.mem_cons_of_mem _ hm)).apply).trans
      (runningCount_apply_le (h st List.mem_cons_self))

/-! ## Tokens -/

/-- The statement gives no row the token. -/
def Stmt.SparesToken (token : Uuid) : Stmt → Prop
  | .updateJob _ st => st.issues ≠ some token
  | .insertJob job => job.executionToken = none
  | _ => True

theorem token_run {st : JobStmt} {row : Job} {token : Uuid} (h : st.issues ≠ some token)
    (ht : (st.update.run row).executionToken = some token) :
    row.executionToken = some token ∧ (st.update.run row).attemptCount = row.attemptCount ∧
      (row.cancelRequestedAt.isSome = true →
        (st.update.run row).cancelRequestedAt.isSome = true) := by
  unfold JobUpdate.run at ht ⊢
  split at ht
  · rename_i hg
    rw [if_pos hg]
    cases st with
    | markRunning w t now lease => exact absurd ht h
    | markQueued now => exact ⟨ht, rfl, id⟩
    | requestRunningCancellation now => exact ⟨ht, rfl, fun _ => rfl⟩
    | _ => cases ht
  · rename_i hg
    rw [if_neg hg]
    exact ⟨ht, rfl, id⟩

/-- Who holds a token afterwards held it before, and has not been claimed since. -/
theorem token_applyAll {token : Uuid} (h : ∀ st ∈ l, st.SparesToken token) {row' : Job}
    (hrow' : (db.applyAll l).job j = some row') (ht : row'.executionToken = some token) :
    ∃ row, db.job j = some row ∧ row.executionToken = some token ∧
      row.attemptCount = row'.attemptCount ∧
      (row.cancelRequestedAt.isSome = true → row'.cancelRequestedAt.isSome = true) := by
  have hkeep : ∀ row', (db.applyAll l).job j = some row' → row'.executionToken = some token →
      ∃ row, db.job j = some row ∧ row.executionToken = some token ∧
        row.attemptCount = row'.attemptCount ∧
        (row.cancelRequestedAt.isSome = true → row'.cancelRequestedAt.isSome = true) := by
    refine Db.applyAll_keeps (R := fun db' => ∀ row', db'.job j = some row' →
      row'.executionToken = some token → ∃ row, db.job j = some row ∧
        row.executionToken = some token ∧ row.attemptCount = row'.attemptCount ∧
        (row.cancelRequestedAt.isSome = true → row'.cancelRequestedAt.isSome = true)) ?_
      fun row' hrow' ht => ⟨row', hrow', ht, rfl, id⟩
    intro st hst db' hdb row' hrow' ht
    have hno := h st hst
    cases st with
    | insertJob job =>
      by_cases hid : db'.job job.id = none
      · rw [job_insertJob hid] at hrow'
        split at hrow'
        · cases hrow'
          rw [hno] at ht
          cases ht
        · exact hdb row' hrow' ht
      · rw [insertJob_of_isSome hid] at hrow'
        exact hdb row' hrow' ht
    | updateJob id st =>
      rw [job_updateJob] at hrow'
      split at hrow'
      · rename_i hid
        obtain ⟨row₀, hrow₀, rfl⟩ := Option.map_eq_some_iff.mp hrow'
        obtain ⟨ht₀, hatt, hc⟩ := token_run hno ht
        obtain ⟨row, hrow, htr, hatt', hc'⟩ := hdb row₀ (hid ▸ hrow₀) ht₀
        exact ⟨row, hrow, htr, hatt'.trans hatt.symm, fun hs => hc (hc' hs)⟩
      · exact hdb row' hrow' ht
    | insertLog => exact hdb row' hrow' ht
    | insertEvent => exact hdb row' hrow' ht
    | updateEvent => exact hdb row' hrow' ht
  exact hkeep row' hrow' ht

end CloudJob
