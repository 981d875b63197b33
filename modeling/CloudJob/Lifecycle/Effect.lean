import CloudJob.Lifecycle.Action

/-!
# `Lifecycle/Effect.lean` — what one step does to the jobs

Of all the steps of the life cycle, a job sees three: it is inserted, one statement fires on it, or
nothing happens. `Core.Step.jobEffect` says so once, with everything the guard of the action gives
about the statement that fired, and every invariant about job rows, attempts, tokens or capacity is
a case analysis on `JobEffect` — not on the actions. -/

set_option autoImplicit false

namespace CloudJob

open Lib

variable {P : Params} {c c' : Core}

/-! ## The history after a commit -/

@[simp] theorem Core.commit_db (c : Core) (p : Pid) (l : List Stmt) :
    (c.commit p l).db = c.db.applyAll l := rfl

theorem Core.commit_append (c : Core) (p : Pid) (l₁ l₂ : List Stmt) :
    c.commit p (l₁ ++ l₂) = (c.commit p l₁).commit p l₂ := by
  simp [Core.commit, Db.applyAll_append]

theorem Core.committed_commit (c : Core) (p : Pid) (l : List Stmt) :
    (c.commit p l).committed = (l.filterMap Stmt.jobStmt).reverse ++ c.committed := by
  have hrev : ∀ l : List Stmt, (((l.map Event.stmt).map (Entry.mk p c.clock)).reverse).filterMap
      Entry.jobStmt = (l.filterMap Stmt.jobStmt).reverse := by
    intro l
    rw [List.filterMap_reverse, List.map_map, List.filterMap_map]
    rfl
  simp only [Core.committed, Core.commit, List.filterMap_append, hrev]

@[simp] theorem Core.committed_record (c : Core) (p : Pid) (j token : Uuid) :
    (c.record p [.handlerStarted j token]).committed = c.committed := rfl

theorem Core.committed_note (c : Core) (p : Pid) {ev : Event}
    (h : (∃ o, ev = .invalidated o) ∨ (∃ n, ev = .announced n)) :
    (c.record p [ev]).committed = c.committed := by
  obtain ⟨o, rfl⟩ | ⟨n, rfl⟩ := h <;> rfl

/-- An environment step touches neither a table row nor the history. -/
theorem Core.env_cases {a : EnvAct} (h : c.env a = some c') :
    c'.db.jobs = c.db.jobs ∧ c'.db.outbox = c.db.outbox ∧ c'.history = c.history ∧
      c'.db.logs = c.db.logs := by
  cases a with
  | tick d =>
    simp only [Core.env, Option.some.injEq] at h
    subst h; exact ⟨rfl, rfl, rfl, rfl⟩
  | register u =>
    simp only [Core.env, Option.some.injEq] at h
    subst h; exact ⟨rfl, rfl, rfl, rfl⟩
  | duplicate m =>
    simp only [Core.env] at h
    split at h
    · cases h; exact ⟨rfl, rfl, rfl, rfl⟩
    · cases h
  | inject text =>
    simp only [Core.env, Option.some.injEq] at h
    subst h; exact ⟨rfl, rfl, rfl, rfl⟩

theorem Core.env_clock {a : EnvAct} (h : c.env a = some c') : c.clock ≤ c'.clock := by
  cases a with
  | tick d =>
    simp only [Core.env, Option.some.injEq] at h
    subst h
    exact Int.le_add_of_nonneg_right (Int.natCast_nonneg d)
  | register u =>
    simp only [Core.env, Option.some.injEq] at h
    subst h
    exact le_rfl
  | duplicate m =>
    simp only [Core.env] at h
    split at h
    · cases h
      exact le_rfl
    · cases h
  | inject text =>
    simp only [Core.env, Option.some.injEq] at h
    subst h
    exact le_rfl

/-- The history lies in the past. -/
theorem Lawful.history_clock (h : Lawful P c) : ∀ en ∈ c.history, en.clock ≤ c.clock := by
  have hnew : ∀ {p : Pid} {c : Core} {evs : List Event}, (∀ en ∈ c.history, en.clock ≤ c.clock) →
      ∀ en ∈ (evs.map (Entry.mk p c.clock)).reverse ++ c.history, en.clock ≤ c.clock := by
    intro p c evs hc en hen
    rcases List.mem_append.mp hen with hen | hen
    · rw [List.mem_reverse] at hen
      obtain ⟨ev, -, rfl⟩ := List.mem_map.mp hen
      exact le_rfl
    · exact hc en hen
  induction h with
  | init => intro en hen; cases hen
  | step _ hstep ih =>
    cases hstep with
    | act => exact hnew ih
    | start => exact hnew ih
    | note => exact hnew ih
    | spend => exact ih
    | send => exact ih
    | drop => exact ih
    | env h =>
      intro en hen
      rw [(Core.env_cases h).2.2.1] at hen
      exact (ih en hen).trans (Core.env_clock h)

/-- Every step but a start leaves the starts alone. -/
theorem Core.Step.starts_cases (h : Core.Step P c c') :
    (∀ j, c'.startedTokens j = c.startedTokens j) ∨
    ∃ j token, c.startedAs token = 0 ∧ (∃ x ∈ c.committed, x.1 = j ∧ x.2.issues = some token) ∧
      ∀ k, c'.startedTokens k = if j = k then token :: c.startedTokens k else
      c.startedTokens k := by
  cases h with
  | act p h =>
    refine .inl fun j => ?_
    have hnone : ∀ l : List Stmt, (((l.map Event.stmt).map (Entry.mk p c.clock)).reverse).filterMap
        (Entry.startedToken j) = [] := by
      intro l
      rw [List.filterMap_reverse, List.map_map, List.filterMap_map]
      induction l with
      | nil => rfl
      | cons st l ih => simp [Entry.startedToken]
    simp only [Core.startedTokens, Core.commit, List.filterMap_append, hnone, List.nil_append]
  | spend => exact .inl fun _ => rfl
  | send => exact .inl fun _ => rfl
  | drop => exact .inl fun _ => rfl
  | @start p j token h0 hx =>
    refine .inr ⟨j, token, h0, hx, fun k => ?_⟩
    by_cases hjk : j = k <;> simp [Core.startedTokens, Core.record, Entry.startedToken, hjk]
  | note p h =>
    obtain ⟨o, rfl⟩ | ⟨n, rfl⟩ := h
    · exact .inl fun _ => rfl
    · exact .inl fun _ => rfl
  | env h =>
    obtain ⟨_, _, hh, _⟩ := Core.env_cases h
    exact .inl fun j => by rw [Core.startedTokens, hh]; rfl

/-! ## The effect on the jobs -/

/-- What an action guarantees, besides its `WHERE`, of a statement it runs on `row`. -/
def JobStmt.Allowed (P : Params) (c : Core) (row : Job) : JobStmt → Prop
  | .markRunning _ token _ _ => row.attemptCount + 1 ≤ row.maxAttempts ∧ c.issued token = 0 ∧
      ∃ settings, P.allows settings = true ∧
        c.db.runningCount row.ownerId < settings.jobMaxRunningPerUser
  | .requeueRunning _ _ _ => row.attemptCount < row.maxAttempts
  | .markFailedWithoutExecution _ _ _ => False
  | _ => True

inductive JobEffect (P : Params) (c c' : Core) : Prop where
  | none : c'.db.jobs = c.db.jobs → c'.committed = c.committed → JobEffect P c c'
  | insert (id owner : Uuid) (type : JobType) (payload : Json) (key : String) (retries : Nat)
      (createdAt updatedAt : Datetime) : c.db.jobByKey owner key = Option.none →
      owner ∈ c.db.users → c.db.job id = Option.none →
      c'.db.jobs = c.db.jobs.insert (newPendingJob id owner type payload key
        (P.buildRequestHash type payload) retries createdAt updatedAt) →
      c'.committed = c.committed → JobEffect P c c'
  | update (j : Uuid) (st : JobStmt) (row : Job) : c.db.job j = some row →
      st.update.guard row = true → st.Allowed P c row →
      c'.db.jobs = c.db.jobs.modify j st.update.run st.update.run_id →
      c'.committed = (j, st) :: c.committed → JobEffect P c c'

theorem Redispatch.jobs {j : Uuid} {at' : Datetime} {l : List Stmt} (h : Redispatch c j at' l)
    (db : Db) : (db.applyAll l).jobs = db.jobs ∧ l.filterMap Stmt.jobStmt = [] := by
  cases h with
  | existing => exact ⟨rfl, rfl⟩
  | new => exact ⟨rfl, rfl⟩

/-- A transaction that begins with a job statement and has no other. -/
theorem JobEffect.of_stmts {j : Uuid} {st : JobStmt} {row : Job} {p : Pid} {rest : List Stmt}
    (hrow : c.db.job j = some row) (hguard : st.update.guard row = true)
    (hallowed : st.Allowed P c row)
    (hrest : ∀ db : Db, (db.applyAll rest).jobs = db.jobs ∧ rest.filterMap Stmt.jobStmt = []) :
    JobEffect P c (c.commit p (.updateJob j st :: rest)) := by
  refine .update j st row hrow hguard hallowed ?_ ?_
  · rw [Core.commit_db, Db.applyAll_cons]
    exact (hrest _).1
  · rw [Core.committed_commit, List.filterMap_cons, (hrest c.db).2]
    rfl

/-- A closing is one statement on its job, followed by what leaves the jobs alone. -/
theorem Closing.head {j : Uuid} {l : List Stmt} (h : Closing P c j l) : ∃ st rest row,
    l = .updateJob j st :: rest ∧ c.db.job j = some row ∧ st.update.guard row = true ∧
    st.Allowed P c row ∧
    ∀ db : Db, (db.applyAll rest).jobs = db.jobs ∧ rest.filterMap Stmt.jobStmt = [] := by
  -- the `WHERE` the four statements share
  have hguard : ∀ {token : Uuid} {row : Job}, c.RunsAs j token row →
      (row.status == .running && row.executionToken == some token) = true := by
    intro token row h
    simp [h.running, h.token]
  have hredispatch : ∀ {at' : Datetime} {ev : List Stmt} (log : JobLog), Redispatch c j at' ev →
      ∀ db : Db, (db.applyAll (ev ++ [.insertLog log])).jobs = db.jobs ∧
        (ev ++ [Stmt.insertLog log]).filterMap Stmt.jobStmt = [] := by
    intro at' ev log hev db
    rw [Db.applyAll_append, List.filterMap_append]
    exact ⟨(hev.jobs db).1, by rw [(hev.jobs db).2]; rfl⟩
  cases h with
  | completed h => exact ⟨_, _, _, rfl, h.found, hguard h, trivial, fun _ => ⟨rfl, rfl⟩⟩
  | cancelled h => exact ⟨_, _, _, rfl, h.found, hguard h, trivial, fun _ => ⟨rfl, rfl⟩⟩
  | failed h => exact ⟨_, _, _, rfl, h.found, hguard h, trivial, fun _ => ⟨rfl, rfl⟩⟩
  | staleFailed h => exact ⟨_, _, _, rfl, h.found, hguard h, trivial, fun _ => ⟨rfl, rfl⟩⟩
  | retried h _ hlt _ hev => exact ⟨_, _, _, rfl, h.found, hguard h, hlt, hredispatch _ hev⟩
  | staleRequeued h _ _ hle hev =>
    exact ⟨_, _, _, rfl, h.found, hguard h, Nat.lt_of_succ_le hle, hredispatch _ hev⟩

theorem Closing.jobEffect {j : Uuid} {l : List Stmt} (h : Closing P c j l) (p : Pid) :
    JobEffect P c (c.commit p l) := by
  obtain ⟨st, rest, row, rfl, hrow, hg, ha, hrest⟩ := h.head
  exact JobEffect.of_stmts hrow hg ha hrest

theorem Action.jobEffect {l : List Stmt} (h : Action P c l) (p : Pid) :
    JobEffect P c (c.commit p l) := by
  cases h with
  | create hkey huser hid _ _ _ =>
    exact .insert _ _ _ _ _ _ _ _ hkey huser hid rfl (Core.committed_commit c p _)
  | queue h hs _ _ =>
    exact JobEffect.of_stmts h.found (by simp [JobStmt.update, markQueued, hs]) trivial
      fun _ => ⟨rfl, rfl⟩
  | republish => exact .none rfl (Core.committed_commit c p _)
  | discard => exact .none rfl (Core.committed_commit c p _)
  | recordFailure => exact .none rfl (Core.committed_commit c p _)
  | claim h hs hlt hset hcap htok _ =>
    exact JobEffect.of_stmts h (by simp [JobStmt.update, markRunning, hs])
      ⟨hlt, htok, _, hset, hcap⟩ fun _ => ⟨rfl, rfl⟩
  | idle => exact .none rfl (Core.committed_commit c p _)
  | defer => exact .none rfl (Core.committed_commit c p _)
  | close h => exact h.jobEffect p
  | cancel h hs _ =>
    exact JobEffect.of_stmts h (by simpa [JobStmt.update, cancelPendingOrQueued] using hs) trivial
      fun _ => ⟨rfl, rfl⟩
  | requestCancel h hs hc _ =>
    exact JobEffect.of_stmts h (by simp [JobStmt.update, requestRunningCancellation, hs, hc])
      trivial
      fun _ => ⟨rfl, rfl⟩

/-- **What a step can do to the jobs.** -/
theorem Core.Step.jobEffect (h : Core.Step P c c') : JobEffect P c c' := by
  cases h with
  | act p h => exact h.jobEffect p
  | spend => exact .none rfl rfl
  | send => exact .none rfl rfl
  | drop => exact .none rfl rfl
  | start => exact .none rfl rfl
  | note p h => exact .none rfl (Core.committed_note c p h)
  | env h =>
    obtain ⟨hj, _, hh, _⟩ := Core.env_cases h
    exact .none hj (by rw [Core.committed, hh]; rfl)

/-! ## One row -/

/-- The row of `k` after a step: as before, new, or rewritten by the one statement that fired. -/
theorem JobEffect.row_cases (h : JobEffect P c c') {k : Uuid} {row' : Job}
    (hk : c'.db.job k = some row') :
    c.db.job k = some row' ∨
    (c.db.job k = Option.none ∧ ∃ owner type payload key retries createdAt updatedAt,
      row' = newPendingJob k owner type payload key (P.buildRequestHash type payload) retries
        createdAt updatedAt) ∨
    ∃ row st, c.db.job k = some row ∧ st.update.guard row = true ∧ st.Allowed P c row ∧
      row' = st.update.set row ∧ c'.committed = (k, st) :: c.committed := by
  cases h with
  | none hj _ => exact .inl (by rwa [Db.job, hj] at hk)
  | insert id owner type payload key retries createdAt updatedAt _ _ hid hj _ =>
    rw [Db.job, hj] at hk
    rw [Table.find?_insert (by exact hid)] at hk
    split at hk
    · rename_i hkid
      have hkid : k = id := hkid
      subst hkid
      cases hk
      exact .inr (.inl ⟨hid, owner, type, payload, key, retries, createdAt, updatedAt, rfl⟩)
    · exact .inl hk
  | update j st row hrow hguard hallowed hj hcom =>
    rw [Db.job, hj, Table.find?_modify] at hk
    split at hk
    · rename_i hkj
      subst hkj
      rw [show c.db.jobs.find? k = some row from hrow] at hk
      simp only [Option.map_some, Option.some.injEq, JobUpdate.run_of_guard hguard] at hk
      exact .inr (.inr ⟨row, st, hrow, hguard, hallowed, hk.symm, hcom⟩)
    · exact .inl hk

/-- A row stays, and keeps its identity. -/
theorem JobEffect.row_stays (h : JobEffect P c c') {k : Uuid} {row : Job}
    (hk : c.db.job k = some row) :
    ∃ row', c'.db.job k = some row' ∧ row'.identity = row.identity := by
  cases h with
  | none hj _ => exact ⟨row, by rw [Db.job, hj]; exact hk, rfl⟩
  | insert id owner type payload key retries createdAt updatedAt _ _ hid hj _ =>
    refine ⟨row, ?_, rfl⟩
    rw [Db.job, hj, Table.find?_insert (by exact hid), if_neg]
    · exact hk
    · intro hkid
      have hkid : k = id := hkid
      rw [hkid, hid] at hk
      cases hk
  | update j st row₀ hrow hguard hallowed hj hcom =>
    rw [Db.job, hj, Table.find?_modify]
    split
    · rename_i hkj
      subst hkj
      rw [show c.db.jobs.find? k = some row from hk]
      exact ⟨_, rfl, st.update.run_identity row⟩
    · exact ⟨row, hk, rfl⟩

end CloudJob
