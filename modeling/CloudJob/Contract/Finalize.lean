import CloudJob.Contract.Uow

/-!
# `Contract/Finalize.lean` — what a worker does with a job it has claimed

From the commit of its claim on, a worker knows nothing of the row but this: if the row carries the
worker's token, then it is the attempt the worker claimed (`Executing`). Nobody else can put that
token there, so this stays true whatever happens to the job meanwhile, and it is all a finalizer
needs: its update matches only a row with the token, and everything else it writes depends on that
match. -/

set_option autoImplicit false

namespace CloudJob

open Lib

variable {P : Params} {p : Pid} {g g' : Ghost} {c c' : Core} {s s' : Shared} {β : Type} {op : Call}
  {Q : Except Exc β → Shared → Prop} {claim : ExecutionClaim}

/-- What stays known of a claim. -/
structure Executing (g : Ghost) (c : Core) (claim : ExecutionClaim) : Prop where
  worker : ∃ settings w m, g.call = .handleMessage settings w m
  own : claim.executionToken ∈ g.own
  spent : ∀ {settings : Settings} {w : String} {m : Message}, g.call = .handleMessage settings w m →
    m.id ∈ c.spent
  attempt : ∀ {row : Job}, c.db.job claim.job.id = some row →
    row.executionToken = some claim.executionToken → row.attemptCount = claim.attemptNumber ∧
      row.maxAttempts = JobWorker.maxTotalAttempts claim.job
  positive : 1 ≤ claim.attemptNumber

theorem Executing.ghost (h : Executing g c claim) (hcall : g'.call = g.call)
    (hown : ∀ u ∈ g.own, u ∈ g'.own) : Executing g' c claim :=
  ⟨hcall ▸ h.worker, hown _ h.own, fun hc => h.spent (hcall.symm.trans hc), h.attempt, h.positive⟩

theorem Job.maxAttempts_of_identity {row row' : Job} (h : row'.identity = row.identity) :
    row'.maxAttempts = row.maxAttempts := by
  have hr : row'.maxRetries = row.maxRetries := congrArg JobIdentity.maxRetries h
  rw [Job.maxAttempts, hr]
  rfl

theorem Executing.keep (h : Executing g c claim) (hx : c.Extends c')
    (ht : ∀ {j : Uuid} {row' : Job}, c'.db.job j = some row' →
      row'.executionToken = some claim.executionToken → ∃ row, c.db.job j = some row ∧
        row.executionToken = some claim.executionToken ∧ row.attemptCount = row'.attemptCount ∧
        (row.cancelRequestedAt.isSome = true → row'.cancelRequestedAt.isSome = true)) :
    Executing g c' claim := by
  refine ⟨h.worker, h.own, fun hc => hx.spent _ (h.spent hc), fun {row'} hrow' htok =>
    ?_, h.positive⟩
  obtain ⟨row, hrow, htok', hatt, -⟩ := ht hrow' htok
  obtain ⟨ha, hm⟩ := h.attempt hrow htok'
  obtain ⟨row'', hrow'', hid⟩ := hx.jobs hrow
  rw [hrow'] at hrow''
  cases hrow''
  exact ⟨hatt.symm.trans ha, (Job.maxAttempts_of_identity hid).trans hm⟩

/-- Up to the present. -/
theorem Executing.now (h : Executing g c claim) (hh : Held P p g c s) : Executing g s.core claim :=
  h.keep hh.keeps.toExtends (hh.own _ h.own).2.token

/-- If the row still carries the worker's token, its cancellation has been requested. A poll that
answers `true` establishes it, whichever of its three reasons it had. -/
def Asked (c : Core) (claim : ExecutionClaim) : Prop := ∀ row, c.db.job claim.job.id = some row →
  row.executionToken = some claim.executionToken → row.cancelRequestedAt.isSome = true

theorem Asked.keep (h : Asked c claim) (ho : OwnKept claim.executionToken c c') :
    Asked c' claim := by
  intro row' hrow' htok
  obtain ⟨row, hrow, ht, -, hc⟩ := ho.token hrow' htok
  exact hc (h row hrow ht)

/-- The worker's message is spent: it may leave its units of work as it likes. -/
theorem Held.spendOk_of_spent (hh : Held P p g c s)
    (h : ∀ {settings w m}, g.call = .handleMessage settings w m → m.id ∈ c.spent) (db : Db) :
    SpendOk s p db := by
  intro m hm
  refine .inl (hh.keeps.spent _ ?_)
  rw [Shared.handling, hh.called] at hm
  cases hc : g.call with
  | handleMessage settings w m' =>
    rw [hc] at hm
    cases hm
    exact h hc
  | _ => rw [hc] at hm; cases hm

/-- The worker is done with its job: nothing is left but to acknowledge the message. -/
def Finished (P : Params) (p : Pid) (op : Call) (s : Shared) : Prop :=
  ∃ g c, Held P p g c s ∧ g.call = op ∧
    ∀ {settings w m}, g.call = .handleMessage settings w m → m.id ∈ c.spent

theorem Executing.finished (h : Executing g c claim) (hh : Held P p g c s) (hop : g.call = op) :
    Finished P p op s := ⟨g, c, hh, hop, h.spent⟩

/-- How a finalizer ends. -/
def FinalPost (P : Params) (p : Pid) (op : Call) : Except Exc Unit → Shared → Prop
  | .ok _, s => Finished P p op s
  | .error e, _ => e.isExternal = true

/-- How the body of a finalizer's unit of work ends. -/
abbrev FinalBody (P : Params) (p : Pid) (op : Call) : Except Exc Unit → Shared → Prop :=
  UowPost P p op (fun _ s => Finished P p op s) fun e _ _ => e.isExternal = true

/-- A statement that closes a token matches only a row that runs as it. -/
theorem JobStmt.guard_of_closes {st : JobStmt} {token : Uuid} {row : Job} (h : st.closes = some token)
    (hg : st.update.guard row = true) : row.status = .running ∧ row.executionToken = some token := by
  cases st with
  | markCompleted t now | markFailed t now error | requeueRunning t now error | markCancelled t now =>
    cases h
    simpa [JobStmt.update, CloudJob.markCompleted, CloudJob.markFailed, CloudJob.requeueRunning,
      CloudJob.markCancelled, whileRunningAs] using hg
  | _ => cases h

theorem JobStmt.issues_of_closes {st : JobStmt} {token : Uuid} (h : st.closes = some token) :
    st.issues = none ∧ ∀ status now error, st ≠ .markFailedWithoutExecution status now error := by
  cases st <;> first | (cases h; done) | exact ⟨rfl, nofun⟩

namespace JobWorker

/-- The end of every finalizer that matched: the commit, and the notification. -/
theorem commitAndNotify_safe {j o : Uuid} {status : JobStatus} {n : Nat} {now : Datetime}
    (h : Held P p g c s) (hop : g.call = op) (hx : Executing g c claim)
    (htxn : ∀ c', Keeps (· ∈ g.rows) c c' → (∀ t ∈ g.readings, P.ReadBy c'.clock t) →
      (∀ u ∈ g.own, OwnKept u c c') → Action P c' g.staged ∧ Retried c' g.staged) :
    (contract P).Safe p ((call .commit).bind fun _ => notifyPostCommit j o status n now)
      (FinalBody P p op) s := by
  refine h.commit (fun s₁ _ h₁ => .action (htxn _ h₁.keeps h₁.reads fun u hu => (h₁.own u hu).2).1)
    (fun _ _ h₁ => h₁.spendOk_of_spent hx.spent _)
    (fun s₁ h₁ _ => (htxn _ h₁.keeps h₁.reads fun u hu => (h₁.own u hu).2).2)
    (fun s₁ s₂ h₁ _ _ _ hsp h₂ => ?_) fun e s₁ he h₁ => (hop ▸ h₁).raised fun _ _ => he
  rw [← Prog.bind_ret (notifyPostCommit j o status n now)]
  refine h₂.notifyPostCommit fun s₃ h₃ => h₃.ret fun s₄ _ h₄ => ⟨_, _, h₄, hop, fun hc => ?_⟩
  exact hsp _ (by rw [Shared.handling, h₂.called, hc])

/-- The unit of work every finalizer opens: its update, and what depends on it. -/
theorem finalize_safe {jst : JobStmt} {rest : Code Unit} (h : Held P p g c s) (hop : g.call = op)
    (hx : Executing g c claim) (hr : g.rows = []) (hst : g.staged = [])
    (hcloses : jst.closes = some claim.executionToken)
    (hent : ∀ s', Held P p g c s' → jst.Entitled P s' p claim.job.id)
    (hrest : ∀ c' row s', c'.RunsAs claim.job.id claim.executionToken row →
      row.attemptCount = claim.attemptNumber → row.maxAttempts = maxTotalAttempts claim.job →
      Executing g c' claim →
      Held P p (g.stage [.job claim.job.id] (.updateJob claim.job.id jst)) c' s' →
      (contract P).Safe p rest (FinalBody P p op) s') :
    (contract P).Safe p
      (withUow ((Jobs.update claim.job.id jst).bind fun done => if done then rest else .ret ()))
      (FinalPost P p op) s := by
  subst hop
  obtain ⟨hissues, hnot⟩ := JobStmt.issues_of_closes hcloses
  refine h.withUow (E := fun e _ _ => e.isExternal = true) (B := fun _ s =>
    Finished P p g.call s) hr
    hst (fun _ he => he) (fun e _ _ _ he _ _ => he) (fun s₁ h₁ => ?_) fun _ s₁ _ h₁ => ?_
  · refine h₁.updateFirst hr hst hissues hnot (fun settings hc => ?_) hent
      (fun c₂ row s₂ hk hrow hg h₂ hown => ?_)
      (fun s₂ h₂ => h₂.ret fun s₃ _ h₃ => hx.finished h₃ rfl) fun e s₂ he _ h₂ =>
      ⟨_, _, h₂, rfl, he⟩
    · obtain ⟨_, _, _, hw⟩ := hx.worker
      rw [hw] at hc
      cases hc
    obtain ⟨hrun, htok⟩ := JobStmt.guard_of_closes hcloses hg
    have hx₂ : Executing g c₂ claim := hx.keep hk.toExtends (hown _ hx.own).token
    obtain ⟨ha, hm⟩ := hx₂.attempt hrow htok
    exact hrest c₂ row s₂ ⟨hrow, hrun, htok⟩ ha hm hx₂ h₂
  · obtain ⟨g', c', h', hc', hsp⟩ := h₁
    exact h'.aexitFalse (fun _ _ hh => hh.spendOk_of_spent hsp _)
      (fun s₂ _ _ h₂ => h₂.ret fun s₃ _ h₃ => ⟨_, c', h₃, hc', hsp⟩) fun e _ he _ _ => he

theorem markCompleted_safe (h : Held P p g c s) (hop : g.call = op) (hx : Executing g c claim)
    (hr : g.rows = []) (hst : g.staged = []) :
    (contract P).Safe p (markCompleted claim) (FinalPost P p op) s := by
  unfold markCompleted utcNow CloudJob.commit
  simp only [Prog.bind_eq, Prog.pure_eq]
  refine h.now fun now s₁ h₁ => finalize_safe h₁ hop (hx.ghost rfl fun _ hu => hu) hr hst rfl
    (fun _ hh => .inl (hh.own _ hx.own).1) fun c₂ row s₂ hrun _ _ hx₂ h₂ => ?_
  refine h₂.createSystemLog (fun t s₃ h₃ => commitAndNotify_safe h₃ hop
    (hx₂.ghost rfl fun _ hu => hu) fun c₄ hk hread _ => ?_)
    fun e s₃ he h₃ => Somewhere.raised (hop ▸ h₃) fun _ _ => he
  show Action P c₄ ((g.staged ++ [_]) ++ [_]) ∧ Retried c₄ ((g.staged ++ [_]) ++ [_])
  rw [hst]
  exact ⟨.close (.completed (hrun.congr (hk.job List.mem_cons_self))
    (hread now (by simp [Ghost.stage]))),
    .of_update nofun rfl⟩

theorem markCancelled_safe (h : Held P p g c s) (hop : g.call = op) (hx : Executing g c claim)
    (hasked : P.handlerRegistry.Honest → Asked c claim) (hr : g.rows = []) (hst : g.staged = []) :
    (contract P).Safe p (markCancelled claim) (FinalPost P p op) s := by
  unfold markCancelled utcNow CloudJob.commit
  simp only [Prog.bind_eq, Prog.pure_eq]
  refine h.now fun now s₁ h₁ => finalize_safe h₁ hop (hx.ghost rfl fun _ hu => hu) hr hst rfl
    (fun _ hh => ⟨(hh.own _ hx.own).1, fun hp => (hasked hp).keep (hh.own _ hx.own).2⟩)
    fun c₂ row s₂ hrun ha _ hx₂ h₂ => ?_
  refine h₂.createSystemLog (fun t s₃ h₃ => commitAndNotify_safe h₃ hop
    (hx₂.ghost rfl fun _ hu => hu) fun c₄ hk hread _ => ?_)
    fun e s₃ he h₃ => Somewhere.raised (hop ▸ h₃) fun _ _ => he
  show Action P c₄ ((g.staged ++ [_]) ++ [_]) ∧ Retried c₄ ((g.staged ++ [_]) ++ [_])
  rw [hst, ← ha]
  exact ⟨.close (.cancelled (hrun.congr (hk.job List.mem_cons_self))
    (hread now (by simp [Ghost.stage]))),
    .of_update nofun rfl⟩

theorem markFailed_safe {error : String} (h : Held P p g c s) (hop : g.call = op)
    (hx : Executing g c claim) (hr : g.rows = []) (hst : g.staged = []) :
    (contract P).Safe p (markFailed claim error) (FinalPost P p op) s := by
  unfold markFailed utcNow CloudJob.commit
  simp only [Prog.bind_eq, Prog.pure_eq]
  refine h.now fun now s₁ h₁ => finalize_safe h₁ hop (hx.ghost rfl fun _ hu => hu) hr hst rfl
    (fun _ hh => .inl (hh.own _ hx.own).1) fun c₂ row s₂ hrun ha _ hx₂ h₂ => ?_
  refine h₂.createSystemLog (fun t s₃ h₃ => commitAndNotify_safe h₃ hop
    (hx₂.ghost rfl fun _ hu => hu) fun c₄ hk hread _ => ?_)
    fun e s₃ he h₃ => Somewhere.raised (hop ▸ h₃) fun _ _ => he
  show Action P c₄ ((g.staged ++ [_]) ++ [_]) ∧ Retried c₄ ((g.staged ++ [_]) ++ [_])
  rw [hst, ← ha]
  exact ⟨.close (.failed (hrun.congr (hk.job List.mem_cons_self))
    (hread now (by simp [Ghost.stage]))),
    .of_update nofun rfl⟩

/-- Below the limit of attempts there is always a delay. -/
theorem retryBackoff_of_lt {n : Nat} {job : JobExecutionDTO} (h1 : 1 ≤ n)
    (h : ¬ n ≥ maxTotalAttempts job) :
    ∃ delay, RETRY_BACKOFF_SECONDS_BY_ATTEMPT.lookup n = some delay := by
  have hn : n < 4 := lt_of_lt_of_le (not_le.mp h) (Nat.min_le_right _ _)
  obtain rfl | rfl | rfl : n = 1 ∨ n = 2 ∨ n = 3 := by omega
  · exact ⟨5, rfl⟩
  · exact ⟨15, rfl⟩
  · exact ⟨30, rfl⟩

theorem scheduleRetry_safe {error : String} (h : Held P p g c s) (hop : g.call = op)
    (hx : Executing g c claim) (hr : g.rows = []) (hst : g.staged = [])
    (hlt : ¬ claim.attemptNumber ≥ maxTotalAttempts claim.job) :
    (contract P).Safe p (scheduleRetry claim error) (FinalPost P p op) s := by
  obtain ⟨delay, hdelay⟩ := retryBackoff_of_lt hx.positive hlt
  unfold scheduleRetry retryBackoffSeconds utcNow CloudJob.commit
  simp only [Prog.bind_eq, Prog.pure_eq, hdelay, Prog.ret_bind]
  refine h.now fun now s₁ h₁ => finalize_safe h₁ hop (hx.ghost rfl fun _ hu => hu) hr hst rfl
    (fun _ hh => .inl (hh.own _ hx.own).1) fun c₂ row s₂ hrun ha hm hx₂ h₂ => ?_
  have hone : ∀ {st : Stmt}, st ∈ g.staged ++ [.updateJob claim.job.id
      (.requeueRunning claim.executionToken now (truncateError MAX_JOB_ERROR_LENGTH error))] →
      st = .updateJob claim.job.id (.requeueRunning claim.executionToken now
        (truncateError MAX_JOB_ERROR_LENGTH error)) := by
    intro st hmem
    rw [hst] at hmem
    exact List.mem_singleton.mp hmem
  refine h₂.redispatch List.mem_cons_self (fun st hmem db => ?_) (fun st hmem u hin => ?_)
    (fun r g₃ evs s₃ hd hadds h₃ => ?_) fun e s₃ he h₃ => Somewhere.raised (hop ▸ h₃) fun _ _ => he
  · rw [hone hmem]
    trivial
  · rw [hone hmem] at hin
    cases hin
  refine h₃.createSystemLog (fun t s₄ h₄ => commitAndNotify_safe h₄ (hadds.call.trans hop)
    (hx₂.ghost hadds.call fun u hu => hadds.own u hu) fun c₅ hk hread hown => ?_)
    fun e s₄ he h₄ => Somewhere.raised (hop ▸ hadds.call ▸ h₄) fun _ _ => he
  have hlock : LockRow.job claim.job.id ∈ g₃.rows := hadds.rows _ List.mem_cons_self
  have hrun₅ : c₅.RunsAs claim.job.id claim.executionToken row := hrun.congr (hk.job hlock)
  have hd₅ : Redispatch c₅ claim.job.id (now + seconds delay) evs :=
    hd.congr (hk.pending hlock) fun e he => (hown e (hadds.fresh e he).2).event (hd.fresh e he)
  show Action P c₅ (g₃.staged ++ [_]) ∧ Retried c₅ (g₃.staged ++ [_])
  rw [hadds.staged]
  show Action P c₅ (((g.staged ++ [_]) ++ evs) ++ [_]) ∧
    Retried c₅ (((g.staged ++ [_]) ++ evs) ++ [_])
  rw [hst, List.append_assoc, ← ha]
  refine ⟨.close (.retried hrun₅ (hread now ?_) ?_ (ha ▸ hdelay) hd₅),
    fun j token' now' error' hm' => ?_⟩
  · exact List.mem_cons_of_mem _ (hadds.readings _ List.mem_cons_self)
  · rw [ha, hm]
    exact not_le.mp hlt
  · have hrest : ∀ log : JobLog, (evs ++ [Stmt.insertLog log]).filterMap Stmt.jobStmt = [] :=
        fun log => by
      rw [List.filterMap_append, (hd₅.jobs c₅.db).2]
      rfl
    obtain ⟨rfl, heq⟩ := update_mem_cons hm' (hrest _)
    cases heq
    exact ⟨row, delay, evs, _, hrun₅.found, ha ▸ hdelay, hd₅, rfl⟩

theorem finalizeFailure_safe {error : String} (h : Held P p g c s) (hop : g.call = op)
    (hx : Executing g c claim) (hr : g.rows = []) (hst : g.staged = []) :
    (contract P).Safe p (finalizeFailure claim error) (FinalPost P p op) s := by
  unfold finalizeFailure
  split
  · exact markFailed_safe h hop hx hr hst
  · rename_i hlt
    exact scheduleRetry_safe h hop hx hr hst hlt

/-! ## The handler -/

/-- The worker is between two units of work, and, if `A`, has been told to stop. -/
def Working (P : Params) (p : Pid) (op : Call) (claim : ExecutionClaim) (A : Prop)
    (s : Shared) : Prop :=
  ∃ g c, Held P p g c s ∧ g.call = op ∧ g.rows = [] ∧ g.staged = [] ∧ Executing g c claim ∧
    (A → Asked c claim)

/-- The body of a poll, answered `b`. -/
def Polled (P : Params) (p : Pid) (op : Call) (claim : ExecutionClaim) (A : Prop)
    (s : Shared) : Prop :=
  ∃ g c, Held P p g c s ∧ g.call = op ∧ Executing g c claim ∧ (A → Asked c claim)

/-- Whatever a poll answers, and also if it raises, the worker goes on as it was. -/
theorem isCancellationRequested_safe {A : Prop} (h : Held P p g c s) (hop : g.call = op)
    (hx : Executing g c claim) (hasked : A → Asked c claim) (hr : g.rows = [])
    (hst : g.staged = []) : (contract P).Safe p (isCancellationRequested claim) (fun r s =>
      (∀ e, r = .error e → e.isExternal = true) ∧ Working P p op claim (A ∨ r = .ok true) s) s := by
  subst hop
  unfold isCancellationRequested Jobs.getExecutionCandidateForUpdate
  simp only [Prog.bind_eq, Prog.pure_eq, Prog.bind_assoc, Prog.ret_bind]
  refine h.withUow (E := fun e g' c' => e.isExternal = true ∧ g'.call = g.call ∧
      Executing g' c' claim ∧ (A → Asked c' claim))
    (B := fun b s => Polled P p g.call claim (A ∨ b = true) s) hr hst
    (fun he hext => ⟨hext, he.2⟩) (fun e g' c' s₁ he h₁ hc => ?_) (fun s₁ h₁ => ?_) fun b s₁ _ h₁ =>
      ?_
  · refine ⟨fun e' heq => by cases heq; exact he.1, _, c', h₁, hc, rfl, rfl,
      he.2.2.1.ghost rfl fun _ hu => hu, ?_⟩
    rintro (ha | hb)
    · exact he.2.2.2 ha
    · cases hb
  · refine h₁.selectJobForUpdate (.inl ?_) (fun settings hc => ?_) (fun o hm => ?_)
      (fun s₂ hi h₂ hnone => ?_) (fun c₂ row s₂ hk hrow _ h₂ hown => ?_)
      fun e s₂ he _ h₂ => ⟨_, _, h₂, rfl, he, rfl, hx, hasked⟩
    · intro r hm
      rw [hr] at hm
      cases hm
    · obtain ⟨_, _, _, hw⟩ := hx.worker
      rw [hw] at hc
      cases hc
    · rw [hr] at hm
      cases hm
    · -- the row is gone: nothing carries the token
      refine (h₂.rebase hi).ret fun s₃ _ h₃ => ⟨_, _, h₃, rfl, hx.now h₂, fun _ row hrow => ?_⟩
      simp [hst, hrow] at hnone
    · have hx₂ : Executing g c₂ claim := hx.keep hk.toExtends (hown _ hx.own).token
      rw [hst, Db.applyAll_nil] at hrow
      have hret : ∀ b : Bool, (b = true → Asked c₂ claim) → (contract P).Safe p (.ret b)
          (UowPost P p g.call (fun b s => Polled P p g.call claim (A ∨ b = true) s)
            fun e g' c' => e.isExternal = true ∧ g'.call = g.call ∧ Executing g' c' claim ∧
              (A → Asked c' claim)) s₂ := fun b hb =>
        h₂.ret fun s₃ _ h₃ => ⟨_, c₂, h₃, rfl, hx₂.ghost rfl fun _ hu => hu,
          fun ha => ha.elim (fun ha => (hasked ha).keep (hown _ hx.own)) hb⟩
      show (contract P).Safe p (if row.executionToken ≠ some claim.executionToken then
        _ else _) _ s₂
      split
      · rename_i hne
        refine hret true fun _ row' hrow' ht => ?_
        rw [hrow] at hrow'
        cases hrow'
        exact absurd ht hne
      · refine hret _ fun hreq row' hrow' _ => ?_
        rw [hrow] at hrow'
        cases hrow'
        exact hreq
  · obtain ⟨g', c', h', hc', hx', ha'⟩ := h₁
    refine h'.aexitFalse (fun _ _ hh => hh.spendOk_of_spent hx'.spent _) (fun s₂ _ _ h₂ => ?_)
      fun e s₂ he _ h₂ => ⟨fun e' heq => by cases heq; exact he, _, c', h₂, hc', rfl, rfl,
        hx'.ghost rfl fun _ hu => hu, ?_⟩
    · refine h₂.ret fun s₃ _ h₃ => ⟨nofun, _, c', h₃, hc', rfl, rfl, hx'.ghost rfl fun _ hu =>
        hu, ?_⟩
      exact fun ha => ha' (ha.imp_right fun hb => by cases hb; rfl)
    · rintro (ha | hb)
      · exact ha' (.inl ha)
      · cases hb

/-- The handler ends with `JobCancellationRequestedError`, having been honest about it. -/
def Stopped (honest : Prop) (r : Except Exc Unit) : Prop :=
  honest ∧ ∃ text, r = .error (.jobCancellationRequested text)

theorem runHandler_safe : ∀ {r : HandlerRun} (asked : Bool) {g : Ghost} {c : Core} {s : Shared},
    Held P p g c s → g.call = op → Executing g c claim → (asked = true → Asked c claim) →
    g.rows = [] → g.staged = [] → (contract P).Safe p (runHandler claim r)
      (fun out s => Working P p op claim (Stopped (r.Honest asked) out) s) s
  | .done, _, g, c, _, h, hop, hx, _, hr, hst => h.ret fun _ _ h₁ =>
      ⟨g, c, h₁, hop, hr, hst, hx, fun ha => by obtain ⟨-, text, he⟩ := ha; cases he⟩
  | .raise e, asked, g, c, _, h, hop, hx, hasked, hr, hst => h.raise fun _ _ h₁ => by
    refine ⟨g, c, h₁, hop, hr, hst, hx, ?_⟩
    rintro ⟨hon, text, he⟩
    cases he
    exact hasked (hon text rfl)
  | .poll k, asked, g, c, s, h, hop, hx, hasked, hr, hst => by
    refine Protocol.Safe.bind (Protocol.Safe.attempt ?_)
    refine (isCancellationRequested_safe h hop hx hasked hr hst).mono fun r s₁ _ h₁ => ?_
    obtain ⟨hext, g', c', h', hop', hr', hst', hx', hasked'⟩ := h₁
    refine (runHandler_safe (r := k r) (asked || saysStop r) h' hop' hx' (fun ha => ?_)
      hr' hst').mono fun out s₂ _ hw => ?_
    · refine hasked' ((Bool.or_eq_true _ _).mp ha |>.imp_right fun hm => ?_)
      cases r with
      | error e => cases hm
      | ok b => exact congrArg Except.ok hm
    · obtain ⟨g₂, c₂, h₂, hop₂, hr₂, hst₂, hx₂, ha₂⟩ := hw
      refine ⟨g₂, c₂, h₂, hop₂, hr₂, hst₂, hx₂, ?_⟩
      rintro ⟨hon, htext⟩
      refine ha₂ ⟨hon r fun text heq => ?_, htext⟩
      have := hext _ heq
      cases this

/-- The claim was committed and its handler has not been started. -/
structure Unstarted (c : Core) (claim : ExecutionClaim) : Prop where
  started : c.startedAs claim.executionToken = 0
  issued : ∃ x ∈ c.committed, x.1 = claim.job.id ∧ x.2.issues = some claim.executionToken

/-- The start of the handler. The record of it is the one thing a worker does to its own token after
the claim, so what is known restarts here. -/
theorem startHandler_safe {f : Unit → Code β} (h : Held P p g c s) (hx : Executing g c claim)
    (hu : Unstarted c claim)
    (hok : ∀ c' s', Executing g c' claim → Held P p g c' s' → (contract P).Safe p (f ()) Q s') :
    (contract P).Safe p ((call (.startHandler claim.job.id claim.executionToken)).bind f) Q s := by
  refine h.perform (fun s' _ hh => ?_) fun s' ch r s'' hi hh hi' he => ?_
  · obtain ⟨x, hx', hxj, hxt⟩ := hu.issued
    exact ⟨(hh.own _ hx.own).1, (hh.own _ hx.own).2.started.trans hu.started, x,
      hh.keeps.toExtends.committed x hx', hxj, hxt⟩
  · cases ch with
    | answer =>
      cases he
      have hsame : SameTables s'.core
          (s'.core.record p [.handlerStarted claim.job.id claim.executionToken]) := .record rfl
      have hx' := (hx.now hh).keep (Keeps.of_sameTables (L := fun _ => False) hsame nofun).toExtends
        fun {j row'} hrow' ht => ⟨row', (hsame.job j).symm.trans hrow', ht, rfl, id⟩
      refine hok _ _ hx' ⟨hi'.lawful, hh.called, hh.locks, hh.staged, hh.reads,
        fun u hu => ?_, .refl _⟩
      exact ⟨(hh.own u hu).1, .refl _ _⟩
    | _ => cases he

theorem executeHandler_safe {w : JobWorker} (h : Held P p g c s) (hop : g.call = op)
    (hx : Executing g c claim) (hu : Unstarted c claim) (hr : g.rows = []) (hst : g.staged = []) :
    (contract P).Safe p (executeHandler w claim)
      (fun out s => Working P p op claim (Stopped w.handlerRegistry.Honest out) s) s := by
  unfold executeHandler
  split
  · refine h.raise fun s₁ _ h₁ => ⟨g, c, h₁, hop, hr, hst, hx, ?_⟩
    rintro ⟨-, text, he⟩
    cases he
  · rename_i handler hreg
    refine startHandler_safe h hx hu fun c₁ s₁ hx₁ h₁ =>
      (runHandler_safe false h₁ hop hx₁ nofun hr hst).mono fun out s₂ _ hw => ?_
    obtain ⟨g₂, c₂, h₂, hop₂, hr₂, hst₂, hx₂, ha₂⟩ := hw
    exact ⟨g₂, c₂, h₂, hop₂, hr₂, hst₂, hx₂, fun ha => ha₂ ⟨ha.1 _ _ _ hreg, ha.2⟩⟩

theorem executeClaim_safe {w : JobWorker} (h : Held P p g c s) (hop : g.call = op)
    (hreg : w.handlerRegistry = P.handlerRegistry) (hx : Executing g c claim)
    (hu : Unstarted c claim) (hr : g.rows = []) (hst : g.staged = []) :
    (contract P).Safe p (executeClaim w claim) (FinalPost P p op) s := by
  refine Protocol.Safe.bind (Protocol.Safe.attempt ?_)
  refine (executeHandler_safe h hop hx hu hr hst).mono fun r s₁ _ h₁ => ?_
  obtain ⟨g', c', h', hop', hr', hst', hx', ha'⟩ := h₁
  cases r with
  | ok _ => exact markCompleted_safe h' hop' hx' hr' hst'
  | error e =>
    cases e with
    | jobCancellationRequested text =>
      exact markCancelled_safe h' hop' hx' (fun hp => ha' ⟨hreg ▸ hp, text, rfl⟩) hr' hst'
    | missingJobHandler _ => exact markFailed_safe h' hop' hx' hr' hst'
    | _ => exact finalizeFailure_safe h' hop' hx' hr' hst'

end JobWorker

end CloudJob
