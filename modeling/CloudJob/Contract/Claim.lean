import CloudJob.Contract.Finalize

/-!
# `Contract/Claim.lean` — `_claim_execution` and `handle_message` keep the contract

A claim holds its owner and its job when it decides, so the count it reads bounds the count at its
commit and the job is still queued there. Whichever way it decides, the message can be let go: the
job is not queued any more, or a dispatch of it is pending.

Four branches of the source are not reached, and the proofs below say why at the place: a message
always has its job, a job its owner, and a queued job an attempt left. -/

set_option autoImplicit false

namespace CloudJob

open Lib

variable {P : Params} {p : Pid} {g g' : Ghost} {c c' : Core} {s s' : Shared} {β : Type} {op : Call}

namespace JobWorker

/-- How the unit of work of `_claim_execution` ends. -/
def ClaimPost (P : Params) (p : Pid) (op : Call) (r : Option ExecutionClaim) (s : Shared) : Prop :=
  ∃ g c, Held P p g c s ∧ g.call = op ∧ (∀ s', Held P p g c s' → SpendOk s' p s'.core.db) ∧
    ∀ claim, r = some claim → Executing g c claim ∧ Unstarted c claim

/-- The claim holds its owner and its job. -/
structure Deciding (P : Params) (g : Ghost) (c : Core) (settings : Settings)
    (d : DispatchOutboxMessage) (token : Uuid) (now : Datetime) (row : Job) : Prop where
  allowed : P.allows settings = true
  message : ∃ w m, g.call = .handleMessage settings w m ∧ m.body = .dispatch d
  id : row.id = d.jobId
  job : c.db.job row.id = some row
  jobLocked : .job row.id ∈ g.rows
  ownerLocked : .user row.ownerId ∈ g.rows
  unstaged : g.staged = []
  own : token ∈ g.own
  fresh : Fresh token c
  reading : now ∈ g.readings
  due : c.WasDueAt P d.eventId now

variable {settings : Settings} {d : DispatchOutboxMessage} {token : Uuid}
  {now : Datetime} {row : Job}

theorem Deciding.keep (h : Deciding P g c settings d token now row) (hh : Held P p g c s) :
    Deciding P g s.core settings d token now row :=
  { h with
    job := (hh.keeps.job h.jobLocked).trans h.job
    fresh := h.fresh.keep (hh.own _ h.own).2
    due := h.due.mono hh.keeps.history }

/-- The message may be let go where its job is locked and does not need it. -/
theorem Deciding.spendOk (h : Deciding P g c settings d token now row) (hh : Held P p g' c' s)
    (hcall : g'.call = g.call) (hrows : .job row.id ∈ g'.rows) {db : Db}
    (hdb : ∀ row', db.job row.id = some row' → row'.status = .queued → ∃ e, db.Pending row.id e) :
    SpendOk s p db := by
  obtain ⟨w, m, hc, hbody⟩ := h.message
  intro m' hm'
  rw [Shared.handling, hh.called, hcall, hc] at hm'
  cases hm'
  exact .inr ⟨row.id, ⟨d, hbody, h.id.symm⟩, (hh.locks _).mpr hrows, hdb⟩

/-- The end of both deciding branches: the commit, the notification, and the answer. -/
theorem commitClaim_safe {r : Option ExecutionClaim} {l : List Stmt} {j o : Uuid}
    {status : JobStatus}
    {n : Nat} {t : Datetime} (h : Held P p g c s) (hop : g.call = op) (hl : g.staged = l)
    (htxn : ∀ s', Held P p g c s' → Action P s'.core l)
    (hspend : ∀ s', Held P p g c s' → SpendOk s' p (s'.core.db.applyAll l))
    (hretry : ∀ c', Retried c' l)
    (hclaim : ∀ s₀ s' : Shared, Held P p g c s₀ → s'.core.db = s₀.core.db.applyAll l →
      s'.core.history = (s₀.core.commit p l).history →
      (∀ {settings w m}, g.idle.call = .handleMessage settings w m → m.id ∈ s'.core.spent) →
      ∀ claim, r = some claim → Executing g.idle s'.core claim ∧ Unstarted s'.core claim) :
    (contract P).Safe p
      ((call .commit).bind fun _ => (notifyPostCommit j o status n t).bind fun _ => .ret r)
      (UowPost P p op (ClaimPost P p op) fun e _ _ => e.isExternal = true) s := by
  subst hl
  refine h.commit (fun s₁ _ h₁ => .action (htxn s₁ h₁)) (fun s₁ _ h₁ => hspend s₁ h₁)
    (fun s₁ _ _ => hretry s₁.core) (fun s₁ s₂ h₁ _ hdb hhist hsp h₂ => ?_) fun e s₁ he h₁ =>
    (hop ▸ h₁).raised fun _ _ => he
  have hspent : ∀ {settings w m}, g.idle.call = .handleMessage settings w m →
      m.id ∈ s₂.core.spent :=
    fun hc => hsp _ (by rw [Shared.handling, h₂.called, hc])
  refine h₂.notifyPostCommit fun s₃ h₃ => h₃.ret fun s₄ _ h₄ => ⟨_, _, h₄, hop, ?_, ?_⟩
  · exact fun s' hh => hh.spendOk_of_spent hspent _
  · exact hclaim s₁ s₂ h₁ hdb hhist hspent

/-- `mark_running` on the row that was read, and the log. -/
def claimStmts (w : JobWorker) (row : Job) (token : Uuid) (now t : Datetime) : List Stmt :=
  [.updateJob row.id (.markRunning w.workerId token now (now + seconds w.settings.jobLeaseSeconds)),
    .insertLog (systemLog row.id "info" "Job execution started" t)]

theorem job_claimStmts {w : JobWorker} {t : Datetime} {db : Db} (hrow : db.job row.id = some row)
    (hq : row.status = .queued) :
    (db.applyAll (claimStmts w row token now t)).job row.id = some ((CloudJob.markRunning w.workerId
      token now (now + seconds w.settings.jobLeaseSeconds)).set row) := by
  simp only [claimStmts, Db.applyAll_cons, Db.applyAll_nil, job_insertLog,
    job_updateJob, if_pos, hrow,
    Option.map_some, Option.some.injEq]
  exact JobUpdate.run_of_guard (by simp [JobStmt.update, CloudJob.markRunning, hq])

theorem takeJob_safe {w : JobWorker} (h : Held P p g c s) (hop : g.call = op)
    (hd : Deciding P g c w.settings d token now row) (hq : row.status = .queued)
    (hatt : row.attemptCount + 1 ≤ row.maxAttempts)
    (hcap : c.db.runningCount row.ownerId < w.settings.jobMaxRunningPerUser) :
    (contract P).Safe p (takeJob w (toJobExecutionDto row) token now)
      (UowPost P p op (ClaimPost P p op) fun e _ _ => e.isExternal = true) s := by
  have hjob : ∀ {c'}, Keeps (· ∈ g.rows) c c' → c'.db.job row.id = some row := fun hk =>
    (hk.job hd.jobLocked).trans hd.job
  unfold takeJob Jobs.markRunning CloudJob.commit
  simp only [Prog.bind_eq, Prog.pure_eq]
  refine h.updateLocked row hd.jobLocked hd.job (not_mem_rows_of_nil hd.unstaged _)
    (fun s₁ _ h₁ => ?_)
    (fun _ s₁ h₁ => ?_) (fun hg s₁ h₁ => ?_) fun e s₁ he _ h₁ => ⟨_, _, h₁, hop, he⟩
  · refine ⟨trivial, fun hst _ => ?_, fun hst hi => ?_, nofun, nofun, nofun, ?_⟩
    · cases hst
      exact ⟨row, hjob h₁.keeps, (h₁.locks _).mpr hd.ownerLocked⟩
    · cases hst
      cases hi
      exact (h₁.own _ hd.own).1
    · obtain ⟨workerId, m, hc, hbody⟩ := hd.message
      exact ⟨_, workerId, m, d, h₁.called.trans (congrArg some hc), hbody, hd.id.symm,
        hd.due.mono h₁.keeps.history⟩
  · refine h₁.createSystemLog (fun t s₂ h₂ => ?_)
      fun e s₂ he h₂ => Somewhere.raised (hop ▸ h₂) fun _ _ => he
    refine commitClaim_safe (l := claimStmts w row token now t) h₂ hop
      (by simp [Ghost.stage, hd.unstaged, claimStmts, toJobExecutionDto]) (fun s₃ h₃ => ?_)
      (fun s₃ h₃ => ?_) (fun _ => .of_update nofun rfl) fun s₃ s₄ h₃ hdb hhist hsp claim hclaim =>
      ?_
    · refine .claim (hjob h₃.keeps) hq hatt hd.allowed ?_ ?_ (h₃.reads now ?_)
      · exact lt_of_le_of_lt (h₃.keeps.running hd.ownerLocked) hcap
      · exact (h₃.own _ hd.own).2.issued.trans hd.fresh.issued
      · exact List.mem_cons_of_mem _ hd.reading
    · refine hd.spendOk h₃ rfl hd.jobLocked fun row' hrow' hq' => ?_
      rw [job_claimStmts (hjob h₃.keeps) hq] at hrow'
      cases hrow'
      cases hq'
    · cases hclaim
      obtain ⟨workerId, m, hc, -⟩ := hd.message
      refine ⟨⟨⟨_, workerId, m, hc⟩, hd.own, hsp, fun {row'} hrow' _ => ?_, Nat.succ_pos _⟩, ?_, ?_⟩
      · rw [hdb] at hrow'
        have hrow'' : (s₃.core.db.applyAll (claimStmts w row token now t)).job row.id = _ :=
          job_claimStmts (hjob h₃.keeps) hq
        have heq := Option.some.inj (hrow'.symm.trans hrow'')
        subst heq
        exact ⟨rfl, rfl⟩
      · rw [Core.startedAs, hhist]
        have hs := Core.startedAs_commit s₃.core p (claimStmts w row token now t) token
        exact hs.trans ((h₃.own _ hd.own).2.started.trans hd.fresh.started)
      · refine ⟨(row.id, .markRunning w.workerId token now
          (now + seconds w.settings.jobLeaseSeconds)),
          ?_, rfl, rfl⟩
        rw [Core.committed, hhist]
        have hcm := Core.committed_commit s₃.core p (claimStmts w row token now t)
        rw [Core.committed] at hcm
        rw [hcm]
        simp [claimStmts, Stmt.jobStmt]
  · simp [JobStmt.update, CloudJob.markRunning, hq] at hg

theorem deferForCapacity_safe (h : Held P p g c s) (hop : g.call = op)
    (hd : Deciding P g c settings d token now row) (hq : row.status = .queued) :
    (contract P).Safe p
      ((deferForCapacity (toJobExecutionDto row) now).bind fun _ =>
        .ret (none : Option ExecutionClaim))
      (UowPost P p op (ClaimPost P p op) fun e _ _ => e.isExternal = true) s := by
  have hnil : ∀ {st : Stmt}, st ∉ g.staged := fun hm => by
    rw [hd.unstaged] at hm
    cases hm
  unfold deferForCapacity CloudJob.commit
  simp only [Prog.bind_eq, Prog.bind_assoc]
  refine h.createDispatchEventIfAbsent hd.jobLocked (fun st hm => absurd hm hnil)
    (fun st hm => absurd hm hnil) (fun s₁ hre h₁ => ?_) (fun g₁ ev s₁ hre hadds h₁ => ?_)
    fun e s₁ he h₁ => Somewhere.raised (hop ▸ h₁) fun _ _ => he
  · -- a dispatch is pending already: the commit has nothing to do
    refine commitClaim_safe h₁ hop hd.unstaged (fun s₂ h₂ => .idle) (fun s₂ h₂ => ?_)
      (fun _ => .of_none rfl) fun _ _ _ _ _ _ _ => nofun
    refine hd.spendOk h₂ rfl hd.jobLocked fun _ _ _ => ?_
    cases hre with
    | @existing e he => exact ⟨e, (h₂.keeps.pending hd.jobLocked e).mpr he⟩
  · unfold logDeferral
    refine h₁.createSystemLog (fun t s₂ h₂ => ?_)
      fun e s₂ he h₂ => Somewhere.raised (hop ▸ hadds.call ▸ h₂) fun _ _ => he
    have hlock : LockRow.job row.id ∈ g₁.rows := hadds.rows _ hd.jobLocked
    have hev : ∀ {c'}, (∀ u ∈ g₁.own, OwnKept u c c') →
        ∀ e ∈ newEvents [.insertEvent ev], c'.db.event e = none := fun hown e he =>
      (hown e (hadds.fresh e he).2).event (hre.fresh e he)
    refine commitClaim_safe (l := [.insertEvent ev] ++ [.insertLog (systemLog row.id "info"
      "Job dispatch deferred because the owner reached the running-job limit" t)]) h₂
      (hadds.call.trans hop) ?_ (fun s₃ h₃ => ?_) (fun s₃ h₃ => ?_) (fun _ => .of_none rfl)
      fun _ _ _ _ _ _ _ => nofun
    · show g₁.staged ++ [_] = _
      rw [hadds.staged, hd.unstaged]
      rfl
    · have hnew := hev fun u hu => (h₃.own u hu).2
      cases hre with
      | @new e t' hno hnone =>
        refine .defer ((h₃.keeps.job hlock).trans hd.job) hq (fun e' he' => ?_) (hnew e ?_)
          (h₃.reads now ?_)
        · exact hno e' ((h₃.keeps.pending hlock e').mp he')
        · simp [newEvents, newDispatchEvent]
        · exact List.mem_cons_of_mem _ (hadds.readings _ hd.reading)
    · refine hd.spendOk h₃ hadds.call hlock fun _ _ _ => ?_
      have hre' : Redispatch s₃.core row.id (now + seconds CAPACITY_DEFER_SECONDS)
          [.insertEvent ev] :=
        hre.congr (h₃.keeps.pending hlock) (hev fun u hu => (h₃.own u hu).2)
      exact (hre'.pending (fun _ => rfl) _).2.2

theorem decideClaim_safe {w : JobWorker} (h : Held P p g c s) (hop : g.call = op)
    (hd : Deciding P g c w.settings d token now row) :
    (contract P).Safe p (decideClaim w row.ownerId (toJobExecutionDto row) token now)
      (UowPost P p op (ClaimPost P p op) fun e _ _ => e.isExternal = true) s := by
  -- a job that is not queued does not need the message
  have hidle : row.status ≠ .queued → (contract P).Safe p (.ret none)
      (UowPost P p op (ClaimPost P p op) fun e _ _ => e.isExternal = true) s := by
    intro hne
    refine h.ret fun s₁ _ h₁ => ⟨g, c, h₁, hop, fun s' hh => ?_, fun _ hc => by cases hc⟩
    refine hd.spendOk hh rfl hd.jobLocked fun row' hrow' hq => ?_
    rw [(hd.keep hh).job] at hrow'
    cases hrow'
    exact absurd hq hne
  unfold decideClaim Jobs.countRunningForOwner
  simp only [Prog.bind_eq, Prog.pure_eq]
  by_cases hp : row.status = .pending
  · rw [if_pos (show (toJobExecutionDto row).status = .pending from hp)]
    exact hidle (by simp [hp])
  rw [if_neg (show ¬ (toJobExecutionDto row).status = .pending from hp)]
  by_cases hrun : row.status = .running
  · rw [if_pos (show (toJobExecutionDto row).status = .running from hrun)]
    exact hidle (by simp [hrun])
  rw [if_neg (show ¬ (toJobExecutionDto row).status = .running from hrun)]
  by_cases ht : row.status.isTerminal = true
  · rw [if_pos (show (toJobExecutionDto row).status.isTerminal = true from ht)]
    exact hidle fun hq => by simp [hq, JobStatus.isTerminal] at ht
  rw [if_neg (show ¬ (toJobExecutionDto row).status.isTerminal = true from ht)]
  have hq : row.status = .queued := by
    cases hs : row.status <;> simp_all [JobStatus.isTerminal]
  -- and a queued job has an attempt left
  have hatt : row.attemptCount < row.maxAttempts := (h.origin.wellShaped hd.job).queued hq
  have hleft : ¬ (toJobExecutionDto row).attemptCount + 1 > maxTotalAttempts
      (toJobExecutionDto row) :=
    not_lt.mpr hatt
  rw [if_neg hleft]
  refine h.countRunning (fun s₁ hi h₁ => ?_) fun e s₁ he _ h₁ => ⟨_, _, h₁, hop, he⟩
  rw [hd.unstaged, Db.applyAll_nil]
  split
  · exact deferForCapacity_safe (h₁.rebase hi) hop (hd.keep h₁) hq
  · rename_i hcap
    exact takeJob_safe (h₁.rebase hi) hop (hd.keep h₁) hq hatt (not_le.mp hcap)

/-- The body of `_claim_execution`'s unit of work, from a message whose job is there. -/
theorem claimLocked_safe {w : JobWorker} {workerId : String} {m : Message} (h : Held P p g c s)
    (hop : g.call = .handleMessage w.settings workerId m) (hbody : m.body = .dispatch d)
    (hallow : P.allows w.settings = true) (hr : g.rows = []) (hst : g.staged = [])
    (hjob : (c.db.job d.jobId).isSome = true) (hown : token ∈ g.own) (hfresh : Fresh token c)
    (hnow : now ∈ g.readings) (hdue : c.WasDueAt P d.eventId now) :
    (contract P).Safe p (claimLocked w d token now)
      (UowPost P p g.call (ClaimPost P p g.call) fun e _ _ => e.isExternal = true) s := by
  obtain ⟨row₀, hrow₀⟩ := Option.isSome_iff_exists.mp hjob
  unfold claimLocked Jobs.getOwnerId Users.lockById Jobs.getExecutionCandidateForUpdate
  simp only [Prog.bind_eq, Prog.pure_eq, Prog.bind_assoc, Prog.ret_bind]
  refine h.selectJob (fun s₁ hi h₁ => ?_) fun e s₁ he _ h₁ => ⟨_, _, h₁, rfl, he⟩
  -- the job of a message is never missing
  obtain ⟨row₁, hrow₁, -⟩ := h₁.keeps.jobs hrow₀
  rw [hst, Db.applyAll_nil, hrow₁]
  have hfresh₁ := hfresh.keep (h₁.own _ hown).2
  have hdue₁ : s₁.core.WasDueAt P d.eventId now := hdue.mono h₁.keeps.history
  have h₁ := h₁.rebase hi
  simp only [Option.filter_some, Option.all_none, if_true, Option.map_some]
  refine h₁.lockUser (.inl ⟨hr, _, _, _, hop⟩) (fun s₂ hi₂ h₂ hno =>
    ?_) (fun c₂ s₂ hk₂ _ h₂ hown₂ _ => ?_)
    fun e s₂ he _ h₂ => ⟨_, _, h₂, rfl, he⟩
  · -- nor is its owner
    exact absurd (h₂.keeps.users _ (h₁.origin.wellFormed.owner hrow₁)) hno
  rw [if_neg (by decide)]
  refine h₂.selectJobForUpdate (.inr ?_) (fun settings hc => ?_) (fun o _ => ?_)
    (fun s₃ _ h₃ hnone => ?_) (fun c₃ row s₃ hk₃ hrow _ h₃ hown₃ => ?_)
    fun e s₃ he _ h₃ => ⟨_, _, h₃, rfl, he⟩
  · intro r hm
    rw [hr, List.append_nil, List.mem_singleton] at hm
    exact ⟨_, hm⟩
  · rw [show g.call = _ from hop] at hc
    cases hc
  · exact ⟨_, _, m, hop, d, hbody, rfl⟩
  · exfalso
    obtain ⟨row₂, hrow₂, -⟩ := hk₂.jobs hrow₁
    obtain ⟨row₃, hrow₃, -⟩ := h₃.keeps.jobs hrow₂
    simp [hst, hrow₃] at hnone
  rw [hst, Db.applyAll_nil] at hrow
  have hid : row.id = d.jobId := Db.job_id hrow
  have howner : row.ownerId = row₁.ownerId := by
    obtain ⟨row', hrow', hid'⟩ := (hk₂.toExtends.trans hk₃.toExtends).jobs hrow₁
    rw [hrow] at hrow'
    cases hrow'
    exact congrArg JobIdentity.ownerId hid'
  rw [← howner]
  exact decideClaim_safe h₃ rfl
    { allowed := hallow
      message := ⟨workerId, m, hop, hbody⟩
      id := hid
      job := hid ▸ hrow
      jobLocked := by simp [hid]
      ownerLocked := by simp [howner]
      unstaged := hst
      own := hown
      fresh := (hfresh₁.keep (hown₂ _ hown)).keep (hown₃ _ hown)
      reading := hnow
      due := hdue₁.mono (hk₂.history.trans hk₃.history) }

/-- How `_claim_execution` ends. -/
def Claims (P : Params) (p : Pid) (op : Call) : Except Exc (Option ExecutionClaim) → Shared → Prop
  | .ok none, s => Finished P p op s
  | .ok (some claim), s => ∃ g c, Held P p g c s ∧ g.call = op ∧ g.rows = [] ∧ g.staged = [] ∧
      Executing g c claim ∧ Unstarted c claim
  | .error e, _ => e.isExternal = true

theorem claimExecution_safe {w : JobWorker} {workerId : String} {m : Message} (h : Held P p g c s)
    (hop : g.call = .handleMessage w.settings workerId m) (hbody : m.body = .dispatch d)
    (hallow : P.allows w.settings = true) (hr : g.rows = []) (hst : g.staged = [])
    (hjob : (c.db.job d.jobId).isSome = true) (hdue : c.WasDue P d.eventId) :
    (contract P).Safe p (claimExecution w d) (Claims P p g.call) s := by
  unfold claimExecution utcNow CloudJob.uuid4
  simp only [Prog.bind_eq]
  refine h.nowSince fun now s₁ hnow h₁ => h₁.uuid4 fun token s₂ hfresh _ h₂ => ?_
  obtain ⟨t₀, ht₀, hread⟩ := hnow
  refine h₂.withUow (E := fun e _ _ => e.isExternal = true) (B := ClaimPost P p g.call) hr hst
    (fun _ he => he) (fun e _ _ _ he _ _ => he) (fun s₃ h₃ => ?_) fun r s₃ _ h₃ => ?_
  · exact claimLocked_safe h₃ hop hbody hallow hr hst hjob List.mem_cons_self hfresh
      List.mem_cons_self
      (hdue.read h.origin ht₀ hread)
  · obtain ⟨g', c', h', hc', hspend, hclaim⟩ := h₃
    refine h'.aexitFalse (fun s' _ hh => hspend s' hh) (fun s₄ hi₄ hsp h₄ => ?_) fun e _ he _ _ =>
      he
    cases r with
    | none =>
      refine (h₄.rebase hi₄).ret fun s₅ _ h₅ => ⟨_, _, h₅, hc', fun hc => hsp _ ?_⟩
      rw [Shared.handling, h₄.called, hc]
    | some claim =>
      obtain ⟨hx, hu⟩ := hclaim claim rfl
      exact h₄.ret fun s₅ _ h₅ => ⟨_, c', h₅, hc', rfl, rfl, hx.ghost rfl fun _ hu => hu, hu⟩

theorem ack_safe {Q : Except Exc Unit → Shared → Prop} {settings : Settings} {workerId : String}
    {m : Message} (h : Finished P p (.handleMessage settings workerId m) s)
    (hok : ∀ s', Q (.ok ()) s') (herr : ∀ e s', e.isExternal = true → Q (.error e) s') :
    (contract P).Safe p (call (.ack m.id)) Q s := by
  obtain ⟨g, c, hh, hc, hsp⟩ := h
  rw [← Prog.bind_ret (call _)]
  refine hh.plain rfl (fun s' _ hh' => hh'.keeps.spent _ (hsp hc)) (fun s' r s'' _ _ _ he => ?_)
    fun e s' he _ _ => herr e s' he
  cases he
  exact fun s' _ _ => hok s'

theorem handleMessage_safe {w : JobWorker} {workerId : String} {m : Message} (h : Held P p g c s)
    (hop : g.call = .handleMessage w.settings workerId m) (hallow : P.allows w.settings = true)
    (hreg : w.handlerRegistry = P.handlerRegistry) (hr : g.rows = []) (hst : g.staged = [])
    (hjob : ∀ d, m.body = .dispatch d → (c.db.job d.jobId).isSome = true)
    (hdue : ∀ d, m.body = .dispatch d → c.WasDue P d.eventId) :
    (contract P).Safe p (handleMessage w m) (fun r _ => ∀ e, r = .error e → e.isExternal = true) s := by
  unfold handleMessage
  split
  · rename_i text hbody
    rw [← Prog.bind_ret (call _)]
    refine h.plain rfl (fun s' _ hh => ⟨m, ?_, rfl, ?_⟩) (fun s' r s'' _ _ _ he => ?_)
      fun e s' he _ _ e' heq => ?_
    · rw [Shared.handling, hh.called, hop]
    · rintro j ⟨d, hd, -⟩
      rw [hbody] at hd
      cases hd
    · cases he
      exact fun s' _ _ _ h => by cases h
    · cases heq
      exact he
  · rename_i d hbody
    simp only [Prog.bind_eq]
    refine (claimExecution_safe h hop hbody hallow hr hst (hjob d hbody) (hdue d hbody)).andThen
      (fun r s₁ _ h₁ => ?_) fun e s₁ _ he e' heq => ?_
    · cases r with
      | none =>
        exact ack_safe (hop ▸ h₁) (fun _ _ h => by cases h) fun e _ he e' heq => by
          cases heq
          exact he
      | some claim =>
        obtain ⟨g', c', h', hc', hr', hst', hx, hu⟩ := h₁
        refine (executeClaim_safe h' hc' hreg hx hu hr' hst').andThen (fun _ s₂ _ h₂ => ?_)
          fun e s₂ _ he e' heq => ?_
        · exact ack_safe (hop ▸ h₂) (fun _ _ h => by cases h) fun e _ he e' heq => by
            cases heq
            exact he
        · cases heq
          exact he
    · cases heq
      exact he

end JobWorker

end CloudJob
