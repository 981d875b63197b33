import Mathlib.Data.List.Perm.Subperm
import CloudJob.Lifecycle.Effect

/-!
# `Lifecycle/Rows.lean` — shape, attempts, tokens, capacity

The invariants that only depend on which job statements fire. Each is a property of a state, kept by
every `JobEffect`, and each needs the ones before it: the row shape says that a queued row has no
token, the attempt count is the number of claims, and the token ledger — issued is closed plus held
— is what makes a token close once. -/

set_option autoImplicit false

namespace CloudJob

open Lib

variable {P : Params} {c c' : Core}

/-! ## Shape -/

/-- What every row satisfies. -/
structure Job.WellShaped (row : Job) : Prop where
  pending : row.status = .pending → row.attemptCount = 0
  queued : row.status = .queued → row.attemptCount < row.maxAttempts
  running : row.status = .running →
    1 ≤ row.attemptCount ∧ row.executionToken.isSome = true ∧ row.leaseExpiresAt.isSome = true
  bound : row.attemptCount ≤ row.maxAttempts
  idle : row.status ≠ .running → row.executionToken = none

theorem newPendingJob_wellShaped {id owner : Uuid} {type : JobType} {payload : Json}
    {key hash : String} {retries : Nat} {createdAt updatedAt : Datetime} :
    (newPendingJob id owner type payload key hash retries createdAt updatedAt).WellShaped := by
  constructor <;> simp [newPendingJob]

/-- The statement that fires on a well-shaped row leaves one. -/
theorem Job.WellShaped.set {row : Job} {st : JobStmt} (h : row.WellShaped)
    (hguard : st.update.guard row = true) (hallowed : st.Allowed P c row) :
    (st.update.set row).WellShaped := by
  have hb := h.bound
  cases st with
  | markQueued now =>
    simp only [JobStmt.update, markQueued, beq_iff_eq] at hguard
    have h0 : row.attemptCount = 0 := h.pending hguard
    refine ⟨fun hs => (by cases hs), fun _ => ?_, fun hs => (by cases hs), hb, fun _ =>
      h.idle (by simp [hguard])⟩
    show row.attemptCount < min (row.maxRetries + 1) MAX_TOTAL_JOB_ATTEMPTS
    rw [h0, MAX_TOTAL_JOB_ATTEMPTS]
    omega
  | markRunning w token now lease =>
    refine ⟨fun hs => (by cases hs), fun hs => (by cases hs), fun _ =>
      ⟨Nat.le_add_left 1 _, rfl, rfl⟩, hallowed.1, ?_⟩
    intro hne
    exact absurd rfl hne
  | markCompleted token now => exact ⟨fun hs => (by cases hs), fun hs => (by cases hs), fun hs =>
      (by cases hs), hb, fun _ => rfl⟩
  | markFailed token now error => exact ⟨fun hs => (by cases hs), fun hs => (by cases hs), fun hs =>
      (by cases hs), hb, fun _ => rfl⟩
  | requeueRunning token now error => exact ⟨fun hs => (by cases hs), fun _ => hallowed, fun hs =>
      (by cases hs), hb, fun _ => rfl⟩
  | markCancelled token now => exact ⟨fun hs => (by cases hs), fun hs => (by cases hs), fun hs =>
      (by cases hs), hb, fun _ => rfl⟩
  | markFailedWithoutExecution status now error => exact hallowed.elim
  | cancelPendingOrQueued now => exact ⟨fun hs => (by cases hs), fun hs => (by cases hs), fun hs =>
      (by cases hs), hb, fun _ => rfl⟩
  | requestRunningCancellation now =>
    exact ⟨h.pending, h.queued, h.running, hb, h.idle⟩

theorem Lawful.wellShaped (h : Lawful P c) :
    ∀ {k : Uuid} {row : Job}, c.db.job k = some row → row.WellShaped := by
  induction h with
  | init => intro k row hk; cases hk
  | step _ hstep ih =>
    intro k row' hk
    rcases hstep.jobEffect.row_cases hk with hk | ⟨-, _, _, _, _, _, _, _, rfl⟩ |
      ⟨row, st, hrow, hguard, hallowed, rfl, -⟩
    · exact ih hk
    · exact newPendingJob_wellShaped
    · exact (ih hrow).set hguard hallowed

/-! ## Attempts -/

/-- The attempts of a job, as its row counts them. -/
def Core.attempts (c : Core) (k : Uuid) : Nat := ((c.db.job k).map Job.attemptCount).getD 0

theorem attemptCount_set {st : JobStmt} {row : Job} :
    (st.update.set row).attemptCount = row.attemptCount + st.issues.isSome.toNat := by
  cases st <;> rfl

theorem Core.runs_of_committed {j : Uuid} {st : JobStmt} (h : c'.committed = (j, st) :: c.committed)
    (k : Uuid) : c'.runs k = c.runs k + (j == k && st.issues.isSome).toNat := by
  rw [Core.runs, h, List.countP_cons]
  cases (j == k && st.issues.isSome) <;> rfl

/-- `attempt_count` is the number of claims that were committed. -/
theorem Lawful.attempts_eq_runs (h : Lawful P c) : ∀ k : Uuid, c.attempts k = c.runs k := by
  induction h with
  | init => intro k; rfl
  | @step c c' _ hstep ih =>
    intro k
    cases hstep.jobEffect with
    | none hj hcom =>
      rw [Core.attempts, Core.runs, hcom, Db.job, hj]
      exact ih k
    | insert id owner type payload key retries createdAt updatedAt _ _ hid hj hcom =>
      rw [Core.attempts, Core.runs, hcom, Db.job, hj,
        Table.find?_insert (by exact hid), ← Core.runs]
      split
      · rename_i hkid
        have hkid : k = id := hkid
        rw [← ih k, Core.attempts, hkid, hid]
        rfl
      · exact ih k
    | update j st row hrow hguard hallowed hj hcom =>
      rw [Core.runs_of_committed hcom, ← ih k, Core.attempts, Core.attempts, Db.job, hj,
        Table.find?_modify]
      by_cases hkj : k = j
      · subst hkj
        rw [if_pos rfl, show c.db.jobs.find? k = some row from hrow, hrow]
        simp [JobUpdate.run_of_guard hguard, attemptCount_set]
      · have hjk : (j == k) = false := by simpa using fun h : j = k => hkj h.symm
        rw [if_neg hkj, hjk]
        rfl

theorem Lawful.attemptCount_eq_runs (h : Lawful P c) {k : Uuid} {row : Job}
    (hk : c.db.job k = some row) : row.attemptCount = c.runs k := by
  rw [← h.attempts_eq_runs k, Core.attempts, hk]
  rfl

/-! ## Tokens -/

/-- How many rows hold the execution token. -/
def Core.holders (c : Core) (token : Uuid) : Nat :=
  c.db.jobs.count fun row => row.executionToken == some token

theorem Core.issued_of_committed {j : Uuid} {st : JobStmt}
    (h : c'.committed = (j, st) :: c.committed) (token : Uuid) :
    c'.issued token = c.issued token + (st.issues == some token).toNat := by
  rw [Core.issued, h, List.countP_cons]
  cases (st.issues == some token) <;> rfl

theorem Core.closed_of_committed {j : Uuid} {st : JobStmt}
    (h : c'.committed = (j, st) :: c.committed) (token : Uuid) :
    c'.closed token = c.closed token + (st.closes == some token).toNat := by
  rw [Core.closed, h, List.countP_cons]
  cases (st.closes == some token) <;> rfl

/-- The ledger of one statement: what it issues goes to the row, what it closes leaves it. -/
theorem token_ledger {st : JobStmt} {row : Job} (h : row.WellShaped)
    (hguard : st.update.guard row = true) (hallowed : st.Allowed P c row) (token : Uuid) :
    ((st.update.set row).executionToken == some token).toNat + (st.closes == some token).toNat =
      (row.executionToken == some token).toNat + (st.issues == some token).toNat := by
  have hclose : ∀ t : Uuid, (row.status == .running && row.executionToken == some t) = true →
      row.executionToken = some t := by
    intro t ht
    simp only [Bool.and_eq_true, beq_iff_eq] at ht
    exact ht.2
  cases st with
  | markQueued now => rfl
  | markRunning w t now lease =>
    simp only [JobStmt.update, markRunning, beq_iff_eq] at hguard
    have hidle : row.executionToken = none := h.idle (by simp [hguard])
    simp [JobStmt.update, markRunning, JobStmt.closes, JobStmt.issues, hidle]
  | markCompleted t now =>
    simp [JobStmt.update, markCompleted, whileRunningAs, Job.release, JobStmt.closes,
      JobStmt.issues,
      hclose t hguard]
  | markFailed t now error =>
    simp [JobStmt.update, markFailed, whileRunningAs, Job.release, JobStmt.closes, JobStmt.issues,
      hclose t hguard]
  | requeueRunning t now error =>
    simp [JobStmt.update, requeueRunning, whileRunningAs, Job.release, JobStmt.closes,
      JobStmt.issues, hclose t hguard]
  | markCancelled t now =>
    simp [JobStmt.update, markCancelled, whileRunningAs, Job.release, JobStmt.closes,
      JobStmt.issues,
      hclose t hguard]
  | markFailedWithoutExecution status now error => exact hallowed.elim
  | cancelPendingOrQueued now =>
    have hidle : row.executionToken = none := by
      refine h.idle fun hr => ?_
      rw [show (JobStmt.cancelPendingOrQueued now).update.guard
        row = row.status.isDispatchable from rfl,
        hr] at hguard
      cases hguard
    simp [JobStmt.update, cancelPendingOrQueued, Job.release, JobStmt.closes, JobStmt.issues, hidle]
  | requestRunningCancellation now => rfl

/-- **The ledger.** A token that was issued is held by one row or has been closed, and it was issued
once. -/
theorem Lawful.ledger (h : Lawful P c) :
    ∀ token : Uuid, c.closed token + c.holders token = c.issued token ∧ c.issued token ≤ 1 := by
  induction h with
  | init => intro token; exact ⟨rfl, Nat.zero_le 1⟩
  | @step c c' hc hstep ih =>
    intro token
    obtain ⟨hled, hone⟩ := ih token
    cases hstep.jobEffect with
    | none hj hcom =>
      rw [Core.closed, Core.issued, Core.holders, hcom, hj]
      exact ⟨hled, hone⟩
    | insert id owner type payload key retries createdAt updatedAt _ _ hid hj hcom =>
      rw [Core.closed, Core.issued, Core.holders, hcom, hj, Table.count_insert (by exact hid)]
      exact ⟨hled, hone⟩
    | update j st row hrow hguard hallowed hj hcom =>
      have hone' := token_ledger (hc.wellShaped hrow) hguard hallowed token
      have hcount := count_updateJob hrow hguard fun row => row.executionToken == some token
      rw [Core.closed_of_committed hcom, Core.issued_of_committed hcom, Core.holders, hj]
      rw [Core.holders] at hled
      refine ⟨by omega, ?_⟩
      by_cases ht : st.issues = some token
      · -- only `mark_running` issues, and only a token that nobody issued before
        cases st <;> simp only [JobStmt.issues, reduceCtorEq, Option.some.injEq] at ht
        subst ht
        have h0 := hallowed.2.1
        simp [JobStmt.issues, h0]
      · have hno : (st.issues == some token) = false := by simpa using ht
        rw [hno]
        exact hone

/-- A row's token was issued, and has not been closed. -/
theorem Lawful.token_open (h : Lawful P c) {k token : Uuid} {row : Job}
    (hk : c.db.job k = some row) (ht : row.executionToken = some token) :
    c.issued token = 1 ∧ c.closed token = 0 := by
  obtain ⟨hled, hone⟩ := h.ledger token
  have hpos : 0 < c.holders token :=
    List.countP_pos_iff.mpr ⟨row, Table.mem_of_find? hk, by simp [ht]⟩
  omega

/-! ## Handler starts -/

/-- The tokens that were issued for job `j`. -/
def Core.issuedTokens (c : Core) (j : Uuid) : List Uuid :=
  c.committed.filterMap fun x => if x.1 = j then x.2.issues else none

theorem Core.length_issuedTokens (c : Core) (j : Uuid) : (c.issuedTokens j).length = c.runs j := by
  rw [Core.issuedTokens, List.length_filterMap_eq_countP, Core.runs]
  refine List.countP_congr fun x _ => ?_
  by_cases hx : x.1 = j <;> simp [hx]

theorem Core.issuedTokens_mono (h : JobEffect P c c') (j : Uuid) :
    c.issuedTokens j ⊆ c'.issuedTokens j := by
  have hcons : ∀ x : Uuid × JobStmt, c.issuedTokens j ⊆
      (x :: c.committed).filterMap fun x => if x.1 = j then x.2.issues else none := by
    intro x
    exact List.filterMap_subset _ (List.subset_cons_self x c.committed)
  cases h with
  | none _ hcom => rw [Core.issuedTokens, Core.issuedTokens, hcom]; exact List.Subset.refl _
  | insert _ _ _ _ _ _ _ _ _ _ _ _ hcom =>
    rw [Core.issuedTokens, Core.issuedTokens, hcom]; exact List.Subset.refl _
  | update k st _ _ _ _ _ hcom =>
    have := hcons (k, st)
    rwa [← hcom] at this

theorem Core.not_mem_startedTokens {token : Uuid} (h : c.startedAs token = 0) (j : Uuid) :
    token ∉ c.startedTokens j := by
  intro hm
  obtain ⟨en, hen, hf⟩ := List.mem_filterMap.mp hm
  refine absurd h (Nat.pos_iff_ne_zero.mp (List.countP_pos_iff.mpr ⟨en, hen, ?_⟩))
  cases hev : en.event with
  | handlerStarted k t =>
    simp only [Entry.startedToken, hev, Option.ite_none_right_eq_some, Option.some.injEq] at hf
    simp [Entry.startsAs, hev, hf.2]
  | _ => simp [Entry.startedToken, hev] at hf

/-- Every start of a handler belongs to a claim of its own. -/
theorem Lawful.startedTokens (h : Lawful P c) :
    ∀ j : Uuid, (c.startedTokens j).Nodup ∧ c.startedTokens j ⊆ c.issuedTokens j := by
  induction h with
  | init => intro j; exact ⟨List.nodup_nil, List.nil_subset _⟩
  | step _ hstep ih =>
    intro j
    obtain ⟨hnodup, hsub⟩ := ih j
    have hmono := Core.issuedTokens_mono hstep.jobEffect j
    rcases hstep.starts_cases with hsame | ⟨k, token, h0, ⟨x, hx, hxk, hxt⟩, hnew⟩
    · rw [hsame j]
      exact ⟨hnodup, List.Subset.trans hsub hmono⟩
    · rw [hnew j]
      split
      · rename_i hkj
        refine ⟨List.nodup_cons.mpr ⟨Core.not_mem_startedTokens h0 j, hnodup⟩, ?_⟩
        refine List.cons_subset.mpr ⟨hmono ?_, List.Subset.trans hsub hmono⟩
        exact List.mem_filterMap.mpr ⟨x, hx, by rw [if_pos (hxk.trans hkj), hxt]⟩
      · exact ⟨hnodup, List.Subset.trans hsub hmono⟩

theorem Lawful.starts_le_runs (h : Lawful P c) (j : Uuid) : c.starts j ≤ c.runs j := by
  obtain ⟨hnodup, hsub⟩ := h.startedTokens j
  rw [Core.starts, ← Core.length_issuedTokens]
  exact (hnodup.subperm hsub).length_le

/-! ## Capacity -/

/-- No statement but `mark_running` makes a row run. -/
theorem isRunningOf_set {st : JobStmt} {row : Job} (hguard : st.update.guard row = true) (o : Uuid)
    (hset : (st.update.set row).isRunningOf o = true) :
    row.isRunningOf o = true ∨ (st.issues.isSome = true ∧ row.ownerId = o) := by
  cases st with
  | markRunning w token now lease =>
    refine .inr ⟨rfl, ?_⟩
    simpa [Job.isRunningOf, JobStmt.update, markRunning] using hset
  | requestRunningCancellation now => exact .inl hset
  | _ => simp [Job.isRunningOf, JobStmt.update, markQueued, markCompleted, markFailed,
      requeueRunning,
      markCancelled, markFailedWithoutExecution, cancelPendingOrQueued, whileRunningAs,
      Job.release] at hset

/-- **Capacity.** No owner has more running jobs than the limit every worker runs with. -/
theorem Lawful.runningCount_le {n : Nat}
    (hn : ∀ settings, P.allows settings = true → settings.jobMaxRunningPerUser = n)
    (h : Lawful P c) : ∀ o : Uuid, c.db.runningCount o ≤ n := by
  induction h with
  | init => intro o; exact Nat.zero_le n
  | @step c c' hc hstep ih =>
    intro o
    cases hstep.jobEffect with
    | none hj _ =>
      rw [Db.runningCount, hj]
      exact ih o
    | insert id owner type payload key retries createdAt updatedAt _ _ hid hj hcom =>
      rw [Db.runningCount, hj, Table.count_insert (by exact hid)]
      have hnot : (newPendingJob id owner type payload key (P.buildRequestHash type payload) retries
          createdAt updatedAt).isRunningOf o = false := by simp [Job.isRunningOf, newPendingJob]
      rw [hnot]
      exact ih o
    | update j st row hrow hguard hallowed hj hcom =>
      have hcount := count_updateJob hrow hguard (Job.isRunningOf o)
      have hold : c.db.jobs.count (Job.isRunningOf o) ≤ n := ih o
      rw [Db.runningCount, hj]
      cases hset : (st.update.set row).isRunningOf o with
      | false => rw [hset] at hcount; simp only [Bool.toNat_false] at hcount; omega
      | true =>
        rcases isRunningOf_set hguard o hset with hrun | ⟨hissues, howner⟩
        · rw [hset, hrun] at hcount
          simp only [Bool.toNat_true] at hcount
          omega
        · cases st <;> simp only [JobStmt.issues, Option.isSome_none, Bool.false_eq_true] at hissues
          obtain ⟨-, -, settings, hs, hlt⟩ := hallowed
          have hlt' : c.db.jobs.count (Job.isRunningOf o) < n := by
            have := hn settings hs
            rw [howner, this] at hlt
            exact hlt
          rw [hset] at hcount
          simp only [Bool.toNat_true] at hcount
          omega

end CloudJob
