import CloudJob.Lib.Observer
import CloudJob.Safety.Rows

/-!
# `Safety/LogLedger.lean` — `job_logs` accounts for the history

A log row has no kind, only a text; which site wrote it is read off the text (`LogKind.ofMessage`).
What an action writes about a job is then a list of kinds, and `LogEffect` says what a step of the
life cycle can do to a job and its log together: nothing of account, the first row, or one statement
with its kinds. The ledger is the invariant that follows, and the number of retries in it is
compared with the status changes an observer of the run has counted. -/

set_option autoImplicit false

namespace CloudJob

open Lib

variable {P : Params} {c c' : Core} {j : Uuid}

/-! ## Kinds -/

/-- The sites that write a log row. -/
inductive LogKind where
  | created
  | started
  | completed
  | finalFailure
  | staleFinalFailure
  | failedBeforeExecution
  | cancelledBeforeExecution
  | cancelledDuringAttempt
  | retryQueued
  | staleRecovered
  | other
deriving DecidableEq, Repr

/-- The status of a job that was ended by the site, if the site ends a job. -/
def LogKind.terminalStatus : LogKind → Option JobStatus
  | .completed => some .completed
  | .finalFailure => some .failed
  | .staleFinalFailure => some .failed
  | .failedBeforeExecution => some .failed
  | .cancelledBeforeExecution => some .cancelled
  | .cancelledDuringAttempt => some .cancelled
  | _ => none

/-- The site puts a running job back into the queue. -/
def LogKind.requeues : LogKind → Bool
  | .retryQueued => true
  | .staleRecovered => true
  | _ => false

/-- The text after `Job attempt {n}`. -/
def LogKind.ofAttempt (rest : List Char) : LogKind :=
  if " became a final failure: ".toList.isPrefixOf rest then .finalFailure
  else if " became a final failure during stale running recovery: ".toList.isPrefixOf rest then
    .staleFinalFailure
  else if " failed and was queued for retry in ".toList.isPrefixOf rest then .retryQueued
  else if " was recovered from stale running state and queued for retry".toList.isPrefixOf rest then
    .staleRecovered
  else .other

/-- Which site wrote the text. -/
def LogKind.ofMessage (message : String) : LogKind :=
  if "Job attempt ".toList.isPrefixOf message.toList then
    .ofAttempt ((message.toList.drop "Job attempt ".length).dropWhile Char.isDigit)
  else if "Job cancelled during attempt ".toList.isPrefixOf message.toList then
    .cancelledDuringAttempt
  else if message = "Job created" then .created
  else if message = "Job execution started" then .started
  else if message = "Job completed" then .completed
  else if message = "Job failed before execution because it exceeded the maximum attempts" then
    .failedBeforeExecution
  else if message = "Job cancelled before execution" then .cancelledBeforeExecution
  else .other

theorem isPrefixOf_append (l₁ l₂ : List Char) : l₁.isPrefixOf (l₁ ++ l₂) = true := by
  rw [List.isPrefixOf_iff_prefix]
  exact List.prefix_append l₁ l₂

/-- The number in the text is skipped. -/
theorem LogKind.ofMessage_attempt {message : String} {n : Nat} {a : Char} {l : List Char}
    (h : message.toList = "Job attempt ".toList ++ ((toString n).toList ++ a :: l))
    (ha : a.isDigit = false) : LogKind.ofMessage message = .ofAttempt (a :: l) := by
  have hdigits : ∀ ch ∈ (toString n).toList, ch.isDigit = true := by
    intro ch hch
    rw [Nat.toString_eq_repr, Nat.toList_repr] at hch
    exact Nat.isDigit_of_mem_toDigits (by decide) (by decide) hch
  have hdrop : ("Job attempt ".toList ++ ((toString n).toList ++ a :: l)).drop
      "Job attempt ".length = (toString n).toList ++ a :: l := List.drop_left' rfl
  rw [LogKind.ofMessage, h, if_pos (isPrefixOf_append _ _), hdrop,
    List.dropWhile_append_of_pos hdigits, List.dropWhile_cons_of_neg (by simp [ha])]

theorem toString_text (text : String) : toString text = text := rfl

theorem LogKind.ofMessage_finalFailure (n : Nat) (error : String) :
    LogKind.ofMessage s!"Job attempt {n} became a final failure: {error}" = .finalFailure := by
  rw [LogKind.ofMessage_attempt (n := n) (a := ' ')
    (l := "became a final failure: ".toList ++ error.toList)
    (by simp [toString_text]) rfl]
  rfl

theorem LogKind.ofMessage_staleFinalFailure (n : Nat) (error : String) :
    LogKind.ofMessage (s!"Job attempt {n} became a final failure during " ++
      s!"stale running recovery: {error}") = .staleFinalFailure := by
  rw [LogKind.ofMessage_attempt (n := n) (a := ' ')
    (l := "became a final failure during stale running recovery: ".toList ++ error.toList)
    (by simp [toString_text]) rfl]
  rfl

theorem LogKind.ofMessage_retryQueued (n delay : Nat) (error : String) :
    LogKind.ofMessage (s!"Job attempt {n} failed and was queued " ++
      s!"for retry in {delay} seconds: {error}") = .retryQueued := by
  rw [LogKind.ofMessage_attempt (n := n) (a := ' ')
    (l := "failed and was queued for retry in ".toList ++
    ((toString delay).toList ++ (" seconds: ".toList ++ error.toList)))
    (by simp [toString_text]) rfl]
  rfl

theorem LogKind.ofMessage_staleRecovered (n : Nat) :
    LogKind.ofMessage
      s!"Job attempt {n} was recovered from stale running state and queued for retry" =
      .staleRecovered := by
  rw [LogKind.ofMessage_attempt (n := n) (a := ' ')
    (l := "was recovered from stale running state and queued for retry".toList)
    (by simp [toString_text]) rfl]
  rfl

theorem LogKind.ofMessage_cancelledDuringAttempt (n : Nat) :
    LogKind.ofMessage s!"Job cancelled during attempt {n}" = .cancelledDuringAttempt := by
  have htext : (s!"Job cancelled during attempt {n}").toList =
      "Job cancelled during attempt ".toList ++ (toString n).toList := by
    simp [toString_text]
  rw [LogKind.ofMessage, htext, if_neg (by simp), if_pos (isPrefixOf_append _ _)]

theorem LogKind.ofMessage_skipped (status : JobStatus) :
    LogKind.ofMessage
      s!"Dispatch skipped because job is not dispatchable (status={status.value})" = .other := by
  cases status <;> decide

/-! ## What an action writes about a job -/

/-- The kind of the log row of `j` that a statement inserts. -/
def Stmt.logKind (j : Uuid) : Stmt → Option LogKind
  | .insertLog log => if log.jobId = j then some (.ofMessage log.message) else none
  | _ => none

/-- The kinds of the log rows of `j`, in the order they were written. -/
def Db.logKinds (db : Db) (j : Uuid) : List LogKind :=
  db.logs.filterMap fun log => if log.jobId = j then some (.ofMessage log.message) else none

theorem logKinds_applyAll (j : Uuid) : ∀ (l : List Stmt) (db : Db),
    (db.applyAll l).logKinds j = db.logKinds j ++ l.filterMap (Stmt.logKind j)
  | [], db => (List.append_nil _).symm
  | st :: l, db => by
    rw [Db.applyAll_cons, logKinds_applyAll j l]
    cases st with
    | insertLog log =>
      by_cases hj : log.jobId = j <;> simp [Db.logKinds, Stmt.apply, Stmt.logKind, hj]
    | _ => rfl

theorem logKind_systemLog (j k : Uuid) (level text : String) (t : Datetime) :
    Stmt.logKind j (.insertLog (systemLog k level text t)) =
      if k = j then some (.ofMessage text) else none := rfl

/-- The kinds of log rows that go with a statement that fires. -/
inductive JobStmt.Logs : JobStmt → List LogKind → Prop where
  | queued {now : Datetime} : Logs (.markQueued now) []
  | started {w : String} {token : Uuid} {now lease : Datetime} :
      Logs (.markRunning w token now lease) [.started]
  | completed {token : Uuid} {now : Datetime} : Logs (.markCompleted token now) [.completed]
  | finalFailure {token : Uuid} {now : Datetime} {error : String} :
      Logs (.markFailed token now error) [.finalFailure]
  | staleFinalFailure {token : Uuid} {now : Datetime} {error : String} :
      Logs (.markFailed token now error) [.staleFinalFailure]
  | retryQueued {token : Uuid} {now : Datetime} {error : String} :
      Logs (.requeueRunning token now error) [.retryQueued]
  | staleRecovered {token : Uuid} {now : Datetime} {error : String} :
      Logs (.requeueRunning token now error) [.staleRecovered]
  | cancelledDuringAttempt {token : Uuid} {now : Datetime} :
      Logs (.markCancelled token now) [.cancelledDuringAttempt]
  | cancelledBeforeExecution {now : Datetime} :
      Logs (.cancelPendingOrQueued now) [.cancelledBeforeExecution]
  | cancellationRequested {now : Datetime} : Logs (.requestRunningCancellation now) [.other]

theorem logKind_mine {level text : String} {t : Datetime} {kind : LogKind}
    (h : LogKind.ofMessage text = kind) :
    [Stmt.insertLog (systemLog j level text t)].filterMap (Stmt.logKind j) = [kind] := by
  simp [logKind_systemLog, h]

theorem JobStmt.Logs.of_message {st : JobStmt} {level text : String} {t : Datetime} {kind : LogKind}
    (h : st.Logs [kind]) (hkind : LogKind.ofMessage text = kind) :
    st.Logs ([Stmt.insertLog (systemLog j level text t)].filterMap (Stmt.logKind j)) := by
  rw [logKind_mine hkind]
  exact h

theorem logKind_other {k : Uuid} (hjk : k ≠ j) (level text : String) (t : Datetime) :
    [Stmt.insertLog (systemLog k level text t)].filterMap (Stmt.logKind j) = [] := by
  simp [logKind_systemLog, hjk]

/-- A closing of `j` writes what goes with its statement, and nothing about other jobs. -/
theorem Closing.logs {l : List Stmt} (h : Closing P c j l) :
    (∃ st rest, l = .updateJob j st :: rest ∧ st.Logs (l.filterMap (Stmt.logKind j))) ∧
    ∀ k, j ≠ k → l.filterMap (Stmt.logKind k) = [] := by
  have hev : ∀ {at' : Datetime} {ev : List Stmt}, Redispatch c j at' ev →
      ∀ k, ev.filterMap (Stmt.logKind k) = [] := by
    intro at' ev h k
    cases h <;> rfl
  have hlog : ∀ {st : JobStmt} {ev : List Stmt} {level text : String} {t : Datetime} {kind : LogKind},
      LogKind.ofMessage text = kind → (∀ k, ev.filterMap (Stmt.logKind k) = []) → st.Logs [kind] →
      (∃ st' rest, Stmt.updateJob j st :: (ev ++ [.insertLog (systemLog j level text t)]) =
        .updateJob j st' :: rest ∧ st'.Logs ((Stmt.updateJob j st :: (ev ++
          [.insertLog (systemLog j level text t)])).filterMap (Stmt.logKind j))) ∧
      ∀ k, j ≠ k → (Stmt.updateJob j st :: (ev ++ [.insertLog (systemLog j level text t)])).filterMap
        (Stmt.logKind k) = [] := by
    intro st ev level text t kind hkind hev hst
    have hcons : ∀ k, (Stmt.updateJob j st :: (ev ++ [.insertLog (systemLog j level text t)])).filterMap
        (Stmt.logKind k) = [Stmt.insertLog (systemLog j level text t)].filterMap (Stmt.logKind k) := by
      intro k
      rw [List.filterMap_cons_none rfl, List.filterMap_append, hev k, List.nil_append]
    refine ⟨⟨st, _, rfl, ?_⟩, fun k hjk => ?_⟩
    · rw [hcons, logKind_mine hkind]
      exact hst
    · rw [hcons, logKind_other hjk]
  have hnil : ∀ k, ([] : List Stmt).filterMap (Stmt.logKind k) = [] := fun _ => rfl
  cases h with
  | completed => exact hlog (by decide) hnil .completed
  | cancelled => exact hlog (LogKind.ofMessage_cancelledDuringAttempt _) hnil .cancelledDuringAttempt
  | failed => exact hlog (LogKind.ofMessage_finalFailure _ _) hnil .finalFailure
  | retried _ _ _ _ hr => exact hlog (LogKind.ofMessage_retryQueued _ _ _) (hev hr) .retryQueued
  | staleFailed => exact hlog (LogKind.ofMessage_staleFinalFailure _ _) hnil .staleFinalFailure
  | staleRequeued _ _ _ _ hr => exact hlog (LogKind.ofMessage_staleRecovered _) (hev hr) .staleRecovered

/-! ## What a step does to a job and its log -/

/-- The statement puts a running job back into the queue. -/
def JobStmt.isRequeue : JobStmt → Bool
  | .requeueRunning _ _ _ => true
  | _ => false

/-- How many committed statements put job `j` back into the queue. -/
def Core.requeues (c : Core) (j : Uuid) : Nat :=
  c.committed.countP fun x => x.1 == j && x.2.isRequeue

/-- What one action does to a job, its requeues and its log. -/
inductive LogEffect (P : Params) (c c' : Core) (j : Uuid) : Prop where
  | none (ks : List LogKind) : c'.db.job j = c.db.job j → c'.requeues j = c.requeues j →
      c'.db.logKinds j = c.db.logKinds j ++ ks → (∀ k ∈ ks, k = .other) →
      (c.db.job j = Option.none → ks = []) → LogEffect P c c' j
  | insert {owner : Uuid} {type : JobType} {payload : Json} {key hash : String} {retries : Nat}
      {createdAt updatedAt : Datetime} : c.db.job j = Option.none →
      c'.db.job j = some (newPendingJob j owner type payload key hash retries createdAt updatedAt) →
      c'.requeues j = c.requeues j → c'.db.logKinds j = c.db.logKinds j ++ [.created] →
      LogEffect P c c' j
  | update {st : JobStmt} {row : Job} {ks : List LogKind} : c.db.job j = some row →
      st.update.guard row = true → st.Allowed P c row → c'.db.job j = some (st.update.set row) →
      c'.requeues j = c.requeues j + st.isRequeue.toNat → st.Logs ks →
      c'.db.logKinds j = c.db.logKinds j ++ ks → LogEffect P c c' j

theorem Core.requeues_of_committed {k : Uuid} {st : JobStmt}
    (h : c'.committed = (k, st) :: c.committed) (j : Uuid) :
    c'.requeues j = c.requeues j + (k == j && st.isRequeue).toNat := by
  rw [Core.requeues, h, List.countP_cons]
  cases (k == j && st.isRequeue) <;> rfl

/-- Statements that leave the jobs alone. -/
theorem LogEffect.of_quiet {l : List Stmt} {p : Pid} {ks : List LogKind}
    (hjobs : (c.db.applyAll l).jobs = c.db.jobs) (hnone : l.filterMap Stmt.jobStmt = [])
    (hks : l.filterMap (Stmt.logKind j) = ks) (hother : ∀ k ∈ ks, k = .other)
    (hrow : c.db.job j = Option.none → ks = []) : LogEffect P c (c.commit p l) j := by
  refine .none ks ?_ ?_ ?_ hother hrow
  · rw [Core.commit_db, Db.job, hjobs, ← Db.job]
  · rw [Core.requeues, Core.committed_commit, hnone]
    rfl
  · rw [Core.commit_db, logKinds_applyAll, hks]

/-- Statements that leave the jobs alone and write one log row, about a job that is there. -/
theorem LogEffect.of_log {l : List Stmt} {p : Pid} {k : Uuid} {row : Job} {level text : String}
    {t : Datetime} (hjobs : (c.db.applyAll l).jobs = c.db.jobs)
    (hnone : l.filterMap Stmt.jobStmt = []) (hlog : l.filterMap (Stmt.logKind j) =
      [Stmt.insertLog (systemLog k level text t)].filterMap (Stmt.logKind j))
    (hkind : LogKind.ofMessage text = .other) (hrow : c.db.job k = some row) :
    LogEffect P c (c.commit p l) j := by
  by_cases hkj : k = j
  · subst hkj
    refine .of_quiet hjobs hnone (hlog.trans (logKind_mine hkind)) (fun kind hm => ?_) fun hno => ?_
    · exact List.mem_singleton.mp hm
    · rw [hrow] at hno
      cases hno
  · exact .of_quiet hjobs hnone (hlog.trans (logKind_other hkj _ _ _)) nofun fun _ => rfl

/-- A transaction that begins with a job statement and has no other. -/
theorem LogEffect.of_stmts {k : Uuid} {st : JobStmt} {row : Job} {p : Pid} {rest : List Stmt}
    (hrow : c.db.job k = some row) (hguard : st.update.guard row = true)
    (hallowed : st.Allowed P c row)
    (hrest : ∀ db : Db, (db.applyAll rest).jobs = db.jobs ∧ rest.filterMap Stmt.jobStmt = [])
    (hmine : st.Logs (rest.filterMap (Stmt.logKind k)))
    (hother : ∀ j, k ≠ j → rest.filterMap (Stmt.logKind j) = []) :
    LogEffect P c (c.commit p (.updateJob k st :: rest)) j := by
  have hcom : (c.commit p (.updateJob k st :: rest)).committed = (k, st) :: c.committed := by
    rw [Core.committed_commit, List.filterMap_cons, (hrest c.db).2]
    rfl
  have hjob : (c.commit p (.updateJob k st :: rest)).db.job j =
      if j = k then (c.db.job k).map st.update.run else c.db.job j := by
    rw [Core.commit_db, Db.applyAll_cons, Db.job, (hrest _).1, ← Db.job, job_updateJob]
  have hkinds : (c.commit p (.updateJob k st :: rest)).db.logKinds j =
      c.db.logKinds j ++ rest.filterMap (Stmt.logKind j) := by
    rw [Core.commit_db, logKinds_applyAll, List.filterMap_cons_none rfl]
  have hreq := Core.requeues_of_committed hcom j
  by_cases hkj : k = j
  · subst hkj
    rw [if_pos rfl, hrow, Option.map_some, JobUpdate.run_of_guard hguard] at hjob
    rw [beq_self_eq_true, Bool.true_and] at hreq
    exact .update hrow hguard hallowed hjob hreq hmine hkinds
  · rw [if_neg (Ne.symm hkj)] at hjob
    rw [beq_false_of_ne hkj, Bool.false_and] at hreq
    exact .none _ hjob hreq hkinds (by rw [hother j hkj]; exact fun _ h => by cases h) fun _ =>
      hother j hkj

theorem Closing.logEffect {k : Uuid} {l : List Stmt} (h : Closing P c k l) (p : Pid) (j : Uuid) :
    LogEffect P c (c.commit p l) j := by
  obtain ⟨⟨st, rest, hl, hlogs⟩, hother⟩ := h.logs
  obtain ⟨st', rest', row, hl', hrow, hg, ha, hrest⟩ := h.head
  rw [hl] at hl' hlogs hother ⊢
  cases hl'
  rw [List.filterMap_cons_none rfl] at hlogs
  exact .of_stmts hrow hg ha hrest hlogs fun j hkj => by
    rw [← hother j hkj, List.filterMap_cons_none rfl]

theorem Action.logEffect {l : List Stmt} (h : Action P c l) (p : Pid) (j : Uuid) :
    LogEffect P c (c.commit p l) j := by
  cases h with
  | @create id e owner type payload key retries createdAt updatedAt t t' availableAt _ _ hid
      _ _ _ =>
    let job := newPendingJob id owner type payload key (P.buildRequestHash type payload) retries
      createdAt updatedAt
    have hjob : (Stmt.apply c.db (.insertJob job)).job j = if j = id then
        some job else c.db.job j :=
      job_insertJob hid
    by_cases hj : j = id
    · subst hj
      rw [if_pos rfl] at hjob
      have hkind : LogKind.ofMessage "Job created" = .created := by decide
      exact .insert hid hjob rfl ((logKinds_applyAll j _ _).trans (congrArg _ (logKind_mine hkind)))
    · rw [if_neg hj] at hjob
      refine .none [] hjob rfl ((logKinds_applyAll j _ _).trans ?_) (fun _ h => by cases h) fun _ =>
        rfl
      exact congrArg _ (logKind_other (Ne.symm hj) "info" "Job created" t)
  | queue h hs _ _ =>
    exact .of_stmts h.found (by simp [JobStmt.update, markQueued, hs]) trivial
      (fun _ => ⟨rfl, rfl⟩) .queued fun _ _ => rfl
  | republish => exact .of_quiet rfl rfl rfl (fun _ h => by cases h) fun _ => rfl
  | discard h hs => exact .of_log rfl rfl rfl (LogKind.ofMessage_skipped _) h.found
  | recordFailure => exact .of_quiet rfl rfl rfl (fun _ h => by cases h) fun _ => rfl
  | claim h hs hlt hset hcap htok _ =>
    exact .of_stmts h (by simp [JobStmt.update, markRunning, hs])
      ⟨hlt, htok, _, hset, hcap⟩ (fun _ => ⟨rfl, rfl⟩) (.of_message .started (by decide))
      fun j hkj => logKind_other hkj _ _ _
  | idle => exact .of_quiet rfl rfl rfl (fun _ h => by cases h) fun _ => rfl
  | defer hrow => exact .of_log rfl rfl rfl (by decide) hrow
  | close h => exact h.logEffect p j
  | cancel h hs _ =>
    exact .of_stmts h (by simpa [JobStmt.update, cancelPendingOrQueued] using hs) trivial
      (fun _ => ⟨rfl, rfl⟩) (.of_message .cancelledBeforeExecution (by decide))
      fun j hkj => logKind_other hkj _ _ _
  | requestCancel h hs hc _ =>
    exact .of_stmts h (by simp [JobStmt.update, requestRunningCancellation, hs, hc]) trivial
      (fun _ => ⟨rfl, rfl⟩) (.of_message .cancellationRequested (by decide))
      fun j hkj => logKind_other hkj _ _ _

/-! ## The ledger -/

/-- What the log of a job says about its row, which was put back into the queue `n` times. -/
structure Job.LedgerOk (row : Job) (ks : List LogKind) (n : Nat) : Prop where
  created : ks.count .created = 1
  started : ks.count .started = row.attemptCount
  ended : ks.countP (fun k => k.terminalStatus.isSome) = if row.status.isTerminal then 1 else 0
  agrees : ∀ k ∈ ks, ∀ status, k.terminalStatus = some status → row.status = status
  requeued : ks.countP LogKind.requeues = n

theorem newPendingJob_ledgerOk {id owner : Uuid} {type : JobType} {payload : Json}
    {key hash : String} {retries : Nat} {createdAt updatedAt : Datetime} :
    (newPendingJob id owner type payload key hash retries createdAt updatedAt).LedgerOk
    [.created] 0 where
  created := rfl
  started := rfl
  ended := rfl
  agrees := by
    intro k hk status hs
    rw [List.mem_singleton.mp hk] at hs
    cases hs
  requeued := rfl

/-- Rows nobody counts. -/
theorem Job.LedgerOk.other {row : Job} {ks more : List LogKind} {n : Nat} (h : row.LedgerOk ks n)
    (hmore : ∀ k ∈ more, k = .other) : row.LedgerOk (ks ++ more) n := by
  induction more generalizing ks with
  | nil =>
    rw [List.append_nil]
    exact h
  | cons k more ih =>
    have hk : k = .other := hmore k List.mem_cons_self
    have hone : row.LedgerOk (ks ++ [k]) n := by
      subst hk
      refine ⟨?_, ?_, ?_, fun k hk status hs => ?_, ?_⟩
      · simpa using h.created
      · simpa using h.started
      · simpa [LogKind.terminalStatus] using h.ended
      · rcases List.mem_append.mp hk with hk | hk
        · exact h.agrees k hk status hs
        · rw [List.mem_singleton.mp hk] at hs
          cases hs
      · simpa [LogKind.requeues] using h.requeued
    rw [List.append_cons]
    exact ih hone fun k' hk' => hmore k' (List.mem_cons_of_mem _ hk')

/-- The log of a live job has no row of a terminal kind. -/
theorem Job.LedgerOk.live {row : Job} {ks : List LogKind} {n : Nat} (h : row.LedgerOk ks n)
    (hlive : row.status.isTerminal = false) : ∀ k ∈ ks, k.terminalStatus = none := by
  have hended := h.ended
  rw [hlive, if_neg Bool.false_ne_true, List.countP_eq_zero] at hended
  intro k hk
  simpa using hended k hk

/-- So one that is added is the only one. -/
theorem Job.LedgerOk.append {row row' : Job} {ks : List LogKind} {k : LogKind} {n : Nat}
    (h : row.LedgerOk ks n) (hlive : row.status.isTerminal = false) (hk : k ≠ .created)
    (hstarted : row'.attemptCount = row.attemptCount + (k == .started).toNat)
    (hended : row'.status.isTerminal = k.terminalStatus.isSome)
    (hagrees : ∀ status, k.terminalStatus = some status → row'.status = status) :
    row'.LedgerOk (ks ++ [k]) (n + k.requeues.toNat) := by
  refine ⟨?_, ?_, ?_, fun k' hk' status hs => ?_, ?_⟩
  · rw [List.count_append, h.created, List.count_singleton, if_neg (by simpa using hk)]
  · rw [List.count_append, h.started, hstarted, List.count_singleton]
    cases k == .started <;> rfl
  · rw [List.countP_append, h.ended, hlive, hended, List.countP_singleton]
    cases k.terminalStatus.isSome <;> rfl
  · rcases List.mem_append.mp hk' with hk' | hk'
    · rw [h.live hlive k' hk'] at hs
      cases hs
    · rw [List.mem_singleton.mp hk'] at hs
      exact hagrees status hs
  · rw [List.countP_append, h.requeued, List.countP_singleton]
    cases k.requeues <;> rfl

theorem Job.LedgerOk.set {row : Job} {st : JobStmt} {ks more : List LogKind} {n : Nat}
    (h : row.LedgerOk ks n) (hguard : st.update.guard row = true) (hallowed : st.Allowed P c row)
    (hlogs : st.Logs more) : (st.update.set row).LedgerOk (ks ++ more)
    (n + st.isRequeue.toNat) := by
  have hlive : row.status.isTerminal = false :=
    Bool.eq_false_iff.mpr fun ht => guard_of_isTerminal ht hallowed hguard
  cases hlogs with
  | queued =>
    rw [List.append_nil]
    refine ⟨h.created, h.started, ?_, fun k hk status hs => ?_, h.requeued⟩
    · rw [h.ended, hlive]
      rfl
    · rw [h.live hlive k hk] at hs
      cases hs
  | started => exact h.append hlive nofun rfl rfl nofun
  | completed => exact h.append hlive nofun rfl rfl fun _ hs => Option.some.inj hs
  | finalFailure => exact h.append hlive nofun rfl rfl fun _ hs => Option.some.inj hs
  | staleFinalFailure => exact h.append hlive nofun rfl rfl fun _ hs => Option.some.inj hs
  | retryQueued => exact h.append hlive nofun rfl rfl nofun
  | staleRecovered => exact h.append hlive nofun rfl rfl nofun
  | cancelledDuringAttempt => exact h.append hlive nofun rfl rfl fun _ hs => Option.some.inj hs
  | cancelledBeforeExecution => exact h.append hlive nofun rfl rfl fun _ hs => Option.some.inj hs
  | cancellationRequested => exact h.append hlive nofun rfl hlive nofun

/-- A job that is not there has no log either. -/
def Core.LedgerOk (c : Core) (j : Uuid) : Prop :=
  match c.db.job j with
  | none => c.db.logKinds j = [] ∧ c.requeues j = 0
  | some row => row.LedgerOk (c.db.logKinds j) (c.requeues j)

theorem LogEffect.ledgerOk (h : LogEffect P c c' j) (hc : c.LedgerOk j) : c'.LedgerOk j := by
  cases h with
  | none ks hrow hreq hks hother hno =>
    rw [Core.LedgerOk, hrow, hreq, hks]
    rw [Core.LedgerOk] at hc
    cases hj : c.db.job j with
    | none =>
      rw [hj] at hc
      rw [hno hj, List.append_nil]
      exact hc
    | some row =>
      rw [hj] at hc
      exact Job.LedgerOk.other hc hother
  | insert hno hrow hreq hks =>
    rw [Core.LedgerOk, hno] at hc
    rw [Core.LedgerOk, hrow, hreq, hks, hc.1, hc.2]
    exact newPendingJob_ledgerOk
  | update hj hguard hallowed hrow hreq hlogs hks =>
    rw [Core.LedgerOk, hj] at hc
    rw [Core.LedgerOk, hrow, hreq, hks]
    exact Job.LedgerOk.set hc hguard hallowed hlogs

/-- What is not a transaction leaves rows, log and history alone. -/
theorem Core.LedgerOk.of_same (hdb : c'.db.jobs = c.db.jobs) (hlogs : c'.db.logs = c.db.logs)
    (hcom : c'.committed = c.committed) (hc : c.LedgerOk j) : c'.LedgerOk j := by
  rw [Core.LedgerOk, Db.job, hdb, Db.logKinds, hlogs, Core.requeues, hcom]
  exact hc

theorem Lawful.ledgerOk (h : Lawful P c) (j : Uuid) : c.LedgerOk j := by
  induction h with
  | init => exact ⟨rfl, rfl⟩
  | step _ hstep ih =>
    cases hstep with
    | act p ha => exact (ha.logEffect p j).ledgerOk ih
    | spend => exact ih.of_same rfl rfl rfl
    | send => exact ih.of_same rfl rfl rfl
    | drop => exact ih.of_same rfl rfl rfl
    | start => exact ih.of_same rfl rfl rfl
    | note p hev =>
      refine ih.of_same ?_ ?_ (Core.committed_note _ p hev)
      · rfl
      · rfl
    | env he =>
      obtain ⟨hjobs, -, hh, hlogs⟩ := Core.env_cases he
      exact ih.of_same hjobs hlogs (by rw [Core.committed, hh]; rfl)

/-! ## Counting the requeues of a run -/

/-- Job `j` went from running to queued. -/
def Db.requeued (db db' : Db) (j : Uuid) : Bool :=
  (db.job j).any (fun row => row.status == .running) && (db'.job j).any
    (fun row => row.status == .queued)

/-- The observer counts, for each job, the steps that took its committed row from running to
queued. -/
def requeues (P : Params) : Notes (machine P) (Uuid → Nat) := fun w _ w' n j =>
  if w.shared.core.db.requeued w'.shared.core.db j then n j + 1 else n j

theorem Closing.jobStmts {l : List Stmt} (h : Closing P c j l) :
    (l.filterMap Stmt.jobStmt).map Prod.fst = [j] := by
  obtain ⟨st, rest, row, rfl, -, -, -, hrest⟩ := h.head
  rw [List.filterMap_cons, (hrest c.db).2]
  rfl

/-- A transaction has one job statement for a job, at most. -/
theorem Txn.jobStmts_nodup {l : List Stmt} (h : Txn P c l) :
    ((l.filterMap Stmt.jobStmt).map Prod.fst).Nodup := by
  cases h with
  | action h =>
    have hcom := Core.committed_commit c 0 l
    have heff := h.jobEffect 0
    have hnil : ∀ {l : List (Uuid × JobStmt)}, l.reverse ++ c.committed = c.committed → l = [] :=
      fun heq => List.reverse_eq_nil_iff.mp (List.append_left_eq_self.mp heq)
    cases heff with
    | none _ hsame =>
      rw [hnil (hcom.symm.trans hsame)]
      exact List.nodup_nil
    | insert _ _ _ _ _ _ _ _ _ _ _ _ hsame =>
      rw [hnil (hcom.symm.trans hsame)]
      exact List.nodup_nil
    | update k st row _ _ _ _ hone =>
      have heq := List.append_cancel_right (hcom.symm.trans (hone.trans List.singleton_append.symm))
      rw [List.reverse_eq_iff.mp heq]
      exact List.nodup_singleton k
  | batch items hjobs _ hall =>
    have hfst : ∀ items : List (Uuid × List Stmt), (∀ x ∈ items, Closing P c x.1 x.2) →
        ((items.flatMap Prod.snd).filterMap Stmt.jobStmt).map Prod.fst = items.map Prod.fst := by
      intro items hall
      induction items with
      | nil => rfl
      | cons x items ih =>
        rw [List.flatMap_cons, List.filterMap_append, List.map_append,
          (hall x List.mem_cons_self).jobStmts, ih fun y hy => hall y (List.mem_cons_of_mem _ hy)]
        rfl
    rw [hfst items hall]
    exact hjobs

/-- The statements that fire on a running row and leave it queued. -/
theorem isRequeue_of_requeued {st : JobStmt} {row : Job} (hguard : st.update.guard row = true)
    (hallowed : st.Allowed P c row) (hrow : row.status = .running)
    (hset : (st.update.set row).status = .queued) : st.isRequeue = true := by
  cases st with
  | requeueRunning => rfl
  | markQueued now => simp [JobStmt.update, markQueued, hrow] at hguard
  | requestRunningCancellation now =>
    rw [show ((JobStmt.requestRunningCancellation now).update.set row).status = row.status from rfl,
      hrow] at hset
    cases hset
  | markFailedWithoutExecution => exact hallowed.elim
  | _ => cases hset

theorem Txn.requeues {l : List Stmt} (h : Txn P c l) (j : Uuid) :
    (l.filterMap Stmt.jobStmt).countP (fun x => x.1 == j && x.2.isRequeue) =
      (c.db.requeued (c.db.applyAll l) j).toNat := by
  by_cases hex : ∃ st, .updateJob j st ∈ l ∧ st.isRequeue = true
  · obtain ⟨st, hm, hst⟩ := hex
    obtain ⟨row, hrow, hg, -, hset⟩ := h.update_mem hm
    have hpos : 0 < (l.filterMap Stmt.jobStmt).countP fun x => x.1 == j && x.2.isRequeue :=
      List.countP_pos_iff.mpr ⟨(j, st), List.mem_filterMap.mpr ⟨_, hm, rfl⟩, by simp [hst]⟩
    have hle : (l.filterMap Stmt.jobStmt).countP (fun x => x.1 == j && x.2.isRequeue) ≤ 1 := by
      refine le_trans ?_ (List.nodup_iff_count_le_one.mp h.jobStmts_nodup j)
      rw [List.count, List.countP_map]
      exact List.countP_mono_left fun x _ hx => (Bool.and_eq_true_iff.mp hx).1
    have hyes : c.db.requeued (c.db.applyAll l) j = true := by
      cases st with
      | requeueRunning token now error =>
        have hrun : (row.status == .running) = true := (Bool.and_eq_true_iff.mp hg).1
        rw [Db.requeued, hrow, hset, Option.any_some, hrun]
        rfl
      | _ => cases hst
    rw [hyes]
    exact le_antisymm hle hpos
  · have hzero : (l.filterMap Stmt.jobStmt).countP (fun x => x.1 == j && x.2.isRequeue) = 0 := by
      refine List.countP_eq_zero.mpr fun x hx hp => hex ?_
      obtain ⟨st, hst, hjs⟩ := List.mem_filterMap.mp hx
      simp only [Bool.and_eq_true, beq_iff_eq] at hp
      cases st with
      | updateJob k s =>
        cases hjs
        exact ⟨s, hp.1 ▸ hst, hp.2⟩
      | _ => cases hjs
    have hno : c.db.requeued (c.db.applyAll l) j = false := by
      refine Bool.eq_false_iff.mpr fun hyes => ?_
      simp only [Db.requeued, Bool.and_eq_true, Option.any_eq_true, beq_iff_eq] at hyes
      obtain ⟨⟨row, hrow, hrun⟩, row', hrow', hqueued⟩ := hyes
      rcases h.row_cases hrow' with hsame | ⟨hnone, -⟩ | ⟨row₀, st, hrow₀, hg, ha, rfl, hm⟩
      · rw [hrow] at hsame
        cases hsame
        rw [hrun] at hqueued
        cases hqueued
      · rw [hrow] at hnone
        cases hnone
      · rw [hrow] at hrow₀
        cases hrow₀
        exact hex ⟨st, hm, isRequeue_of_requeued hg ha hrun hqueued⟩
    rw [hzero, hno]
    rfl

variable {w : World (machine P)}

theorem Reachable.requeues_step (h : Reachable P w) {mv : Move (machine P)} {w' : World (machine P)}
    (hs : (machine P).step mv w = some w') (j : Uuid) : w'.shared.core.requeues j =
      w.shared.core.requeues j + (w.shared.core.db.requeued w'.shared.core.db j).toNat := by
  rcases h.commits hs with hq | ⟨p, ch, op, k, -, -, htxn, hdb, hh⟩
  · have hcom : w'.shared.core.committed = w.shared.core.committed := by
      obtain ⟨l, hl, hno⟩ := hq.history
      have hnil : l.filterMap Entry.jobStmt = [] := by
        refine List.filterMap_eq_nil_iff.mpr fun en hen => ?_
        unfold Entry.jobStmt
        split
        · exact absurd ‹_› (hno en hen _)
        · rfl
      rw [Core.committed, hl, List.filterMap_append, hnil]
      rfl
    -- one row is not both running and queued
    have hno : w.shared.core.db.requeued w'.shared.core.db j = false := by
      rw [Db.requeued, Db.job, Db.job, hq.jobs]
      cases w.shared.core.db.jobs.find? j with
      | none => rfl
      | some row => cases hrow : row.status <;> simp [hrow]
    rw [hno, Core.requeues, hcom]
    rfl
  · have hcom : w'.shared.core.committed = _ :=
      (congrArg (List.filterMap Entry.jobStmt) hh).trans (Core.committed_commit _ p _)
    rw [Core.requeues, hcom, List.countP_append, List.countP_reverse, htxn.requeues j,
      hdb, Nat.add_comm]
    rfl

/-- What the observer has counted is what the history holds. -/
theorem requeues_eq {n : Uuid → Nat} (h : (machine P).ObservedBy (fun _ _ => True) (requeues P)
    (World.init P) (fun _ => 0) w n) (j : Uuid) : n j = w.shared.core.requeues j := by
  refine (h.invariant (I := fun w n => Reachable P w ∧ n j = w.shared.core.requeues j) ⟨.refl, rfl⟩
    fun w₁ w₂ n₁ mv hi _ hs => ⟨hi.1.step hs, ?_⟩).2
  rw [hi.1.requeues_step hs j, ← hi.2, requeues]
  cases w₁.shared.core.db.requeued w₂.shared.core.db j <;> rfl

/-- **The log accounts for the job.** In every state a run reaches, the log of a job has one row of
its creation, one for each attempt, one of its end if it has ended, of the status it ended with, and
one for each time the run took it from running back to queued. -/
theorem log_accounts_for_job {n : Uuid → Nat}
    (h : (machine P).ObservedBy (fun _ _ => True) (requeues P)
    (World.init P) (fun _ => 0) w n) {row : Job} (hj : w.shared.core.db.job j = some row) :
    row.LedgerOk (w.shared.core.db.logKinds j) (n j) := by
  have hreach : Reachable P w := h.reachBy.reach
  have hledger := hreach.lawful.ledgerOk j
  rw [Core.LedgerOk, hj] at hledger
  rw [requeues_eq h j]
  exact hledger

/-- The job of the run fails once and is queued for a retry: three rows. -/
theorem log_accounts_for_job_retried : ∃ w n, (machine .default).ObservedBy (fun _ _ => True)
    (requeues .default) (World.init .default) (fun _ => 0) w n ∧ ∃ row,
      w.shared.core.db.job 10 = some row ∧ row.status = .queued ∧ n 10 = 1 ∧
      w.shared.core.db.logKinds 10 = [.created, .started, .retryQueued] ∧
      row.LedgerOk (w.shared.core.db.logKinds 10) (n 10) := by
  have hrun : (((machine .default).observe (requeues .default)
    (claimedFailureMoves ++ retryMoves 2 12 0)
      (World.init .default) (fun _ => 0)).bind fun x => (x.1.shared.core.db.job 10).map fun row =>
        (row.status, x.2 10, x.1.shared.core.db.logKinds 10)) =
      some (.queued, 1, [.created, .started, .retryQueued]) := by
    decide +kernel
  obtain ⟨⟨w, n⟩, hw, hrow⟩ := Option.bind_eq_some_iff.mp hrun
  obtain ⟨row, hj, heq⟩ := Option.map_eq_some_iff.mp hrow
  simp only [Prod.mk.injEq] at heq
  have hobs : (machine .default).ObservedBy (fun _ _ => True) (requeues .default)
    (World.init .default)
      (fun _ => 0) w n := .of_observe (fun _ _ => trivial) hw
  exact ⟨w, n, hobs, row, hj, heq.1, heq.2.1, heq.2.2, log_accounts_for_job hobs hj⟩

end CloudJob
