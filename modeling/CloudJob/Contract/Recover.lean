import CloudJob.Contract.Uow

/-!
# `Contract/Recover.lean` — recovery keeps the contract

The loop closes the jobs of its batch one after another and commits them together. Its invariant is
the list of what it has staged so far, one closing for each job (`Batch`), all of them about jobs it
holds; so each closing is still right when the next owner's lock has been waited for, and when the
commit comes. -/

set_option autoImplicit false

namespace CloudJob

open Lib

variable {P : Params} {p : Pid} {g g' : Ghost} {c c' : Core} {s s' : Shared} {β : Type}
  {Q : Except Exc β → Shared → Prop} {items : List (Uuid × List Stmt)} {now : Datetime} {row : Job}

/-- What recovery has staged: a closing for each of several jobs it holds. -/
structure Batch (P : Params) (g : Ghost) (c : Core) (items : List (Uuid × List Stmt)) : Prop where
  staged : g.staged = items.flatMap Prod.snd
  closing : ∀ x ∈ items, Closing P c x.1 x.2
  jobs : (items.map Prod.fst).Nodup
  events : (newEvents (items.flatMap Prod.snd)).Nodup
  own : ∀ e ∈ newEvents (items.flatMap Prod.snd), e ∈ g.own
  locked : ∀ x ∈ items, LockRow.job x.1 ∈ g.rows

theorem mem_newEvents_flatMap {x : Uuid × List Stmt} (hx : x ∈ items) {e : Uuid}
    (he : e ∈ newEvents x.2) : e ∈ newEvents (items.flatMap Prod.snd) := by
  obtain ⟨st, hst, hf⟩ := List.mem_filterMap.mp he
  exact List.mem_filterMap.mpr ⟨st, List.mem_flatMap.mpr ⟨x, hx, hst⟩, hf⟩

theorem Batch.keep (h : Batch P g c items) (hk : Keeps (· ∈ g.rows) c c')
    (hown : ∀ u ∈ g.own, OwnKept u c c') : Batch P g c' items where
  staged := h.staged
  closing x hx := by
    have hcl := h.closing x hx
    have hl := h.locked x hx
    refine hcl.congr (hk.job hl) (hk.pending hl) (fun e he => ?_) hk.clock
    exact (hown e (h.own e (mem_newEvents_flatMap hx he))).event (hcl.fresh e he)
  jobs := h.jobs
  events := h.events
  own := h.own
  locked := h.locked

/-- The transaction with one closing more. -/
theorem Batch.push {j : Uuid} {l : List Stmt} (h : Batch P g c items) (hl : Closing P c j l)
    (hj : j ∉ items.map Prod.fst) (hstaged : g'.staged = g.staged ++ l)
    (hrows : ∀ r ∈ g.rows, r ∈ g'.rows) (hlock : LockRow.job j ∈ g'.rows)
    (hown : ∀ u ∈ g.own, u ∈ g'.own) (hnew : ∀ e ∈ newEvents l, e ∉ g.own ∧ e ∈ g'.own)
    (hnodup : (newEvents l).Nodup) : Batch P g' c (items ++ [(j, l)]) where
  staged := by rw [hstaged, h.staged, List.flatMap_append]; simp
  closing x hx := by
    rcases List.mem_append.mp hx with hx | hx
    · exact h.closing x hx
    · rw [List.mem_singleton] at hx
      exact hx ▸ hl
  jobs := by
    rw [List.map_append, List.nodup_append]
    refine ⟨h.jobs, by simp, fun a ha b hb => ?_⟩
    rw [List.map_singleton, List.mem_singleton] at hb
    subst hb
    rintro rfl
    exact hj ha
  events := by
    rw [List.flatMap_append, newEvents_append, List.nodup_append]
    refine ⟨h.events, by simpa using hnodup, fun a ha b hb => ?_⟩
    rw [List.flatMap_singleton] at hb
    rintro rfl
    exact (hnew a hb).1 (h.own a ha)
  own e he := by
    rw [List.flatMap_append, newEvents_append] at he
    rcases List.mem_append.mp he with he | he
    · exact hown e (h.own e he)
    · rw [List.flatMap_singleton] at he
      exact (hnew e he).2
  locked x hx := by
    rcases List.mem_append.mp hx with hx | hx
    · exact hrows _ (h.locked x hx)
    · rw [List.mem_singleton] at hx
      exact hx ▸ hlock

/-- What is staged leaves the other jobs alone. -/
theorem Batch.spares (h : Batch P g c items) {j : Uuid} (hj : j ∉ items.map Prod.fst) :
    ∀ st ∈ g.staged, LockRow.job j ∉ st.rows ∧ (∀ db, st.Apart db j) ∧
      ∀ u, st.introduces = some u → u ∈ g.own := by
  intro st hst
  rw [h.staged] at hst
  obtain ⟨x, hx, hst⟩ := List.mem_flatMap.mp hst
  have hne : x.1 ≠ j := fun heq => hj (heq ▸ List.mem_map_of_mem hx)
  rcases (h.closing x hx).stmt_cases st hst with ⟨s, rfl⟩ | ⟨log, rfl⟩ | ⟨e, t, at', rfl, hmem⟩
  · exact ⟨by simpa [Stmt.rows] using hne.symm, fun _ => trivial, fun _ h => by cases h⟩
  · exact ⟨fun h => (by cases h), fun _ => trivial, fun _ h => by cases h⟩
  · refine ⟨by simp [Stmt.rows], fun _ => hne, fun u hu => ?_⟩
    cases hu
    exact h.own e (mem_newEvents_flatMap hx hmem)

/-- An expired row of the batch, held. -/
structure Stale (g : Ghost) (c : Core) (now : Datetime) (row : Job) : Prop where
  job : c.db.job row.id = some row
  expired : row.isExpired now = true
  locked : LockRow.job row.id ∈ g.rows

theorem Stale.keep (h : Stale g c now row) (hrows : ∀ r ∈ g.rows, r ∈ g'.rows)
    (hk : Keeps (· ∈ g.rows) c c') : Stale g' c' now row :=
  ⟨(hk.job h.locked).trans h.job, h.expired, hrows _ h.locked⟩

/-- It runs, as some token. -/
theorem Stale.runsAs (h : Stale g c now row) (hlaw : Lawful P c) :
    ∃ token, row.executionToken = some token ∧ c.RunsAs row.id token row := by
  have hrun : row.status = .running := by
    have hx := h.expired
    simp only [Job.isExpired, Bool.and_eq_true, beq_iff_eq] at hx
    exact hx.1
  obtain ⟨token, ht⟩ := Option.isSome_iff_exists.mp ((hlaw.wellShaped h.job).running hrun).2.1
  exact ⟨token, ht, h.job, hrun, ht⟩

/-- Recovery may close it. -/
theorem Stale.closer {settings : Settings} (h : Stale g c now row) (hh : Held P p g c s)
    (hop : g.call = .recoverDueBatchOnce settings) (token : Uuid) : Closer s p row.id token now :=
  .inr ⟨⟨settings, hh.called.trans (congrArg some hop)⟩, (hh.locks _).mpr h.locked, row,
    (hh.keeps.job h.locked).trans h.job, h.expired⟩

/-- What a transaction of recovery does on the way: it keeps what it has. -/
structure Ghost.Grows (g g' : Ghost) : Prop where
  call : g'.call = g.call
  rows : ∀ r ∈ g.rows, r ∈ g'.rows
  readings : ∀ t ∈ g.readings, t ∈ g'.readings

namespace StaleRunningRecovery

/-- The update of a job of the batch: it matches. -/
theorem updateStale_safe {f : Bool → Code β} {jst : JobStmt} (h : Held P p g c s)
    (hb : Batch P g c items) (hs : Stale g c now row) (hnew : row.id ∉ items.map Prod.fst)
    (hissues : jst.issues = none)
    (hx : ∀ status now error, jst ≠ .markFailedWithoutExecution status now error)
    (hguard : jst.update.guard row = true)
    (hent : ∀ s', Held P p g c s' → jst.Entitled P s' p row.id)
    (hok : ∀ s', Held P p (g.stage [] (.updateJob row.id jst)) c s' →
      (contract P).Safe p (f true) Q s')
    (herr : ∀ e s', e.isExternal = true → Somewhere P p g.call s' → Q (.error e) s') :
    (contract P).Safe p ((Jobs.update row.id jst).bind f) Q s := by
  refine h.updateLocked row hs.locked hs.job (fun st hst => (hb.spares hnew st hst).1)
    (fun s₁ _ h₁ => .updateJob hissues hx (hent s₁ h₁)) (fun _ s₁ h₁ => hok s₁ h₁)
    (fun hg _ _ => ?_) fun e s₁ he _ h₁ => herr e s₁ he h₁.somewhere
  rw [hguard] at hg
  cases hg

/-- What the closing of a job of the batch must lead to. -/
def Closes (P : Params) (p : Pid) (g : Ghost) (c : Core)
    (items : List (Uuid × List Stmt)) (j : Uuid) (s : Shared) : Prop :=
  ∃ g' l, Held P p g' c s ∧ g.Grows g' ∧ Batch P g' c (items ++ [(j, l)])

theorem failStaleJob_safe {settings : Settings} {f : Option JobPostCommitNotification → Code β}
    {token : Uuid} (h : Held P p g c s) (hop : g.call = .recoverDueBatchOnce settings)
    (hb : Batch P g c items) (hs : Stale g c now row)
    (hnew : row.id ∉ items.map Prod.fst) (hread : P.ReadBy c.clock now)
    (hrun : c.RunsAs row.id token row) (hlast : row.maxAttempts < row.attemptCount + 1)
    (hok : ∀ n s', Closes P p g c items row.id s' → (contract P).Safe p (f n) Q s')
    (herr : ∀ e s', e.isExternal = true → Somewhere P p g.call s' → Q (.error e) s') :
    (contract P).Safe p ((failStaleJob (toJobExecutionDto row) token now).bind f) Q s := by
  unfold failStaleJob Jobs.markFailed
  simp only [Prog.bind_eq, Prog.pure_eq, Prog.bind_assoc]
  refine updateStale_safe h hb hs hnew rfl (fun _ _ _ h => by cases h) ?_ (fun s₁ h₁ =>
    hs.closer h₁ hop token)
    (fun s₁ h₁ => ?_) herr
  · simp [JobStmt.update, markFailed, whileRunningAs, hrun.running, hrun.token]
  · rw [if_pos rfl, Prog.bind_assoc]
    refine h₁.createSystemLog (fun t s₂ h₂ => ?_) fun e s₂ he h₂ => herr e s₂ he h₂
    refine hok _ s₂ ⟨_, _, h₂, ⟨rfl, fun _ hr => hr, fun _ ht => List.mem_cons_of_mem _ ht⟩,
      hb.push (.staleFailed (t := t) hrun hread hs.expired hlast) hnew ?_ (fun _ hr => hr) hs.locked
        (fun _ hu => hu) (fun _ h => by cases h) List.nodup_nil⟩
    exact List.append_assoc _ _ _

theorem requeueStaleJob_safe {settings : Settings} {f : Option JobPostCommitNotification → Code β}
    {token : Uuid} (h : Held P p g c s) (hop : g.call = .recoverDueBatchOnce settings)
    (hb : Batch P g c items) (hs : Stale g c now row)
    (hnew : row.id ∉ items.map Prod.fst) (hread : P.ReadBy c.clock now)
    (hrun : c.RunsAs row.id token row) (hleft : row.attemptCount + 1 ≤ row.maxAttempts)
    (hok : ∀ n s', Closes P p g c items row.id s' → (contract P).Safe p (f n) Q s')
    (herr : ∀ e s', e.isExternal = true → Somewhere P p g.call s' → Q (.error e) s') :
    (contract P).Safe p ((requeueStaleJob (toJobExecutionDto row) token now).bind f) Q s := by
  unfold requeueStaleJob Jobs.requeueRunning
  simp only [Prog.bind_eq, Prog.pure_eq, Prog.bind_assoc]
  refine updateStale_safe h hb hs hnew rfl nofun ?_ (fun s₁ h₁ => hs.closer h₁ hop token)
    (fun s₁ h₁ => ?_) herr
  · simp [JobStmt.update, requeueRunning, whileRunningAs, hrun.running, hrun.token]
  · rw [if_pos rfl, Prog.bind_assoc]
    have hsplit : ∀ {st : Stmt}, st ∈ g.staged ++ [.updateJob row.id
        (.requeueRunning token now RECOVERY_REQUEUE_MESSAGE)] → st ∈ g.staged ∨
        st = .updateJob row.id (.requeueRunning token now RECOVERY_REQUEUE_MESSAGE) := fun hm => by
      simpa using hm
    refine h₁.redispatch hs.locked (fun st hm db => ?_) (fun st hm u hin => ?_)
      (fun _ g₂ evs s₂ hre hadds h₂ => ?_) herr
    · rcases hsplit hm with hm | rfl
      · exact (hb.spares hnew st hm).2.1 db
      · trivial
    · rcases hsplit hm with hm | rfl
      · exact (hb.spares hnew st hm).2.2 u hin
      · cases hin
    rw [Prog.bind_assoc]
    refine h₂.createSystemLog (fun t s₃ h₃ => ?_) fun e s₃ he h₃ => herr e s₃ he (hadds.call ▸ h₃)
    have hevents : newEvents (.updateJob row.id
      (.requeueRunning token now RECOVERY_REQUEUE_MESSAGE) ::
        (evs ++ [.insertLog (systemLog row.id "warning"
          s!"Job attempt {row.attemptCount} was recovered from stale running state and queued for retry"
          t)])) = newEvents evs := by
      rw [← List.singleton_append, newEvents_append, newEvents_append]
      simp [newEvents]
    refine hok _ s₃ ⟨_, _, h₃, ⟨hadds.call, fun r hr => hadds.rows r hr,
        fun t ht => List.mem_cons_of_mem _ (hadds.readings t ht)⟩,
      hb.push (.staleRequeued (t := t) hrun hread hs.expired hleft hre) hnew ?_
        (fun r hr => hadds.rows r hr) (hadds.rows _ hs.locked) (fun u hu => hadds.own u hu) ?_ ?_⟩
    · show g₂.staged ++ [_] = _
      rw [hadds.staged]
      show (g.staged ++ [_] ++ evs) ++ [_] = _
      simp [toJobExecutionDto]
    · intro e he
      rw [hevents] at he
      exact hadds.fresh e he
    · rw [hevents]
      exact hre.nodup

theorem recoverStaleJob_safe {settings : Settings} {f : Option JobPostCommitNotification → Code β}
    (h : Held P p g c s) (hop : g.call = .recoverDueBatchOnce settings) (hb : Batch P g c items)
    (hs : Stale g c now row) (hnew : row.id ∉ items.map Prod.fst) (hnow : now ∈ g.readings)
    (hok : ∀ n g' c' l s', Held P p g' c' s' → g.Grows g' → Keeps (· ∈ g.rows) c c' →
      Batch P g' c' (items ++ [(row.id, l)]) → (contract P).Safe p (f n) Q s')
    (herr : ∀ e s', e.isExternal = true → Somewhere P p g.call s' → Q (.error e) s') :
    (contract P).Safe p ((recoverStaleJob (toJobExecutionDto row) now).bind f) Q s := by
  obtain ⟨token, htok, -⟩ := hs.runsAs h.origin
  unfold recoverStaleJob Users.lockById
  rw [show (toJobExecutionDto row).executionToken = some token from htok]
  simp only [Prog.bind_eq, Prog.pure_eq, Prog.bind_assoc]
  refine h.lockUser (.inr ⟨⟨settings, hop⟩, row.id, row, hs.locked, hs.job, rfl⟩)
    (fun s₁ _ h₁ hno => ?_)
    (fun c₁ s₁ hk _ h₁ hown hread => ?_) fun e s₁ he _ h₁ => herr e s₁ he h₁.somewhere
  · exact absurd (h₁.keeps.users _ (h.origin.wellFormed.owner hs.job)) hno
  · have hs₁ : Stale { g with rows := [.user row.ownerId] ++ g.rows } c₁ now row :=
      hs.keep (fun r hr => List.mem_cons_of_mem _ hr) hk
    have hb₁ : Batch P { g with rows := [.user row.ownerId] ++ g.rows } c₁ items :=
      { hb.keep hk hown with locked := fun x hx => List.mem_cons_of_mem _ (hb.locked x hx) }
    obtain ⟨token', htok', hrun⟩ := hs₁.runsAs h₁.origin
    obtain rfl : token' = token := Option.some.inj (htok'.symm.trans htok)
    have hdone : ∀ n s', Closes P p { g with rows := [.user row.ownerId] ++ g.rows } c₁
      items row.id s' →
        (contract P).Safe p (f n) Q s' := by
      rintro n s' ⟨g', l, h', hg, hb'⟩
      exact hok n g' c₁ l s' h' ⟨hg.call, fun r hr => hg.rows r (List.mem_cons_of_mem _ hr),
        hg.readings⟩ hk hb'
    rw [if_neg (by decide)]
    split
    · rename_i hlast
      exact failStaleJob_safe h₁ hop hb₁ hs₁ hnew (hread now hnow) hrun hlast hdone herr
    · rename_i hleft
      exact requeueStaleJob_safe h₁ hop hb₁ hs₁ hnew (hread now hnow) hrun
        (not_lt.mp hleft) hdone herr

/-- The loop. Each round adds the closing of its job to the batch. -/
theorem recoverAll_safe {settings : Settings}
    (herr : ∀ e s', e.isExternal = true → Somewhere P p (.recoverDueBatchOnce settings) s' →
      Q (.error e) s') :
    ∀ {rows : List Job} {f : List JobPostCommitNotification → Code β} {g : Ghost} {c : Core}
      {s : Shared} {items : List (Uuid × List Stmt)}, Held P p g c s →
      g.call = .recoverDueBatchOnce settings → Batch P g c items → now ∈ g.readings →
      (∀ row ∈ rows, Stale g c now row ∧ row.id ∉ items.map Prod.fst) → (rows.map Job.id).Nodup →
      (∀ ns g' c' items' s', Held P p g' c' s' → g'.call = .recoverDueBatchOnce settings →
        Batch P g' c' items' → (contract P).Safe p (f ns) Q s') →
      (contract P).Safe p ((recoverAll now (rows.map toJobExecutionDto)).bind f) Q s
  | [], f, g, c, s, items, h, hop, hb, _, _, _, hok => hok [] g c items s h hop hb
  | row :: rest, f, g, c, s, items, h, hop, hb, hnow, hrows, hnodup, hok => by
    rw [List.map_cons, List.nodup_cons] at hnodup
    obtain ⟨hs, hnew⟩ := hrows row List.mem_cons_self
    simp only [List.map_cons, recoverAll, Prog.bind_eq, Prog.pure_eq, Prog.bind_assoc,
      Prog.ret_bind]
    refine recoverStaleJob_safe h hop hb hs hnew hnow (fun n g' c' l s₁ h₁ hg hk hb' => ?_)
      fun e s₁ he h₁ => herr e s₁ he (hop ▸ h₁)
    refine recoverAll_safe herr h₁ (hg.call.trans hop) hb' (hg.readings _ hnow)
      (fun row' hrow' => ?_)
      hnodup.2 fun ns g'' c'' items'' s₂ h₂ hop₂ hb₂ => hok _ g'' c'' items'' s₂ h₂ hop₂ hb₂
    obtain ⟨hs', hnew'⟩ := hrows row' (List.mem_cons_of_mem _ hrow')
    refine ⟨hs'.keep hg.rows hk, ?_⟩
    rw [List.map_append, List.mem_append, not_or]
    refine ⟨hnew', ?_⟩
    rw [List.map_singleton, List.mem_singleton]
    intro heq
    refine hnodup.1 ?_
    rw [← show row'.id = row.id from heq]
    exact List.mem_map_of_mem hrow'

theorem notifyAll_safe {α : Type} {Q : Except Exc α → Shared → Prop} {f : Unit → Code α} :
    ∀ {ns : List JobPostCommitNotification} {s : Shared}, Held P p g c s →
      (∀ s', Held P p g c s' → (contract P).Safe p (f ()) Q s') →
      (contract P).Safe p ((notifyAll ns).bind f) Q s
  | [], s, h, hok => hok s h
  | n :: ns, s, h, hok => by
    simp only [notifyAll, Prog.bind_eq, Prog.bind_assoc]
    exact h.notifyPostCommit fun s₁ h₁ => notifyAll_safe h₁ hok

theorem recoverDueBatchOnce_safe {settings settings' : Settings} (h : Held P p g c s)
    (hop : g.call = .recoverDueBatchOnce settings) (hr : g.rows = []) (hst : g.staged = []) :
    (contract P).Safe p (recoverDueBatchOnce settings') (fun _ _ => True) s := by
  have hcall : ∀ {g' : Ghost}, g'.call = .recoverDueBatchOnce settings →
      ∀ settings w m, g'.call ≠ .handleMessage settings w m := fun hop' _ _ _ heq => by
    rw [hop'] at heq
    cases heq
  unfold recoverDueBatchOnce utcNow Jobs.claimExpiredRunningJobsForUpdate
  simp only [Prog.bind_eq, Prog.pure_eq, Prog.bind_assoc, Prog.ret_bind]
  refine h.now fun now s₁ h₁ => Protocol.Safe.bind (h₁.withUow (E := fun _ _ _ => True)
    (B := fun _ s => Somewhere P p (.recoverDueBatchOnce settings) s) hr hst (fun _ _ => trivial)
    (fun _ _ _ _ _ _ _ => trivial) (fun s₂ h₂ => ?_) fun ns s₂ _ h₂ => ?_)
  · refine h₂.lockExpiredJobs hr (fun c₃ rows s₃ hk hsub h₃ => ?_)
      fun e s₃ _ _ h₃ => ⟨_, _, h₃, rfl, trivial⟩
    rw [hst, Db.applyAll_nil] at hsub
    have hempty : Batch P { g with
        rows := rows.map (fun job => .job job.id) ++ g.rows, readings :=
            now :: g.readings } c₃ [] :=
      ⟨hst, nofun, List.nodup_nil, List.nodup_nil, nofun, nofun⟩
    refine recoverAll_safe (fun e s₄ _ h₄ => (hop ▸ h₄).raised fun _ _ => trivial) h₃ hop hempty
      List.mem_cons_self (fun row hrow => ⟨?_, nofun⟩) ?_ fun ns g₄ c₄ items s₄ h₄ hop₄ hb => ?_
    · obtain ⟨hjob, hx⟩ := Db.mem_expiredRunning (hsub.mem hrow)
      exact ⟨hjob, hx, List.mem_append_left _ (List.mem_map_of_mem hrow)⟩
    · exact (hsub.map Job.id).nodup (Db.nodup_expiredRunning _ _)
    · have hend : ∀ {g₅ c₅ s₅}, Held P p g₅ c₅ s₅ → g₅.call = .recoverDueBatchOnce settings →
          (contract P).Safe p (.ret ns) (UowPost P p g.call
            (fun _ s => Somewhere P p (.recoverDueBatchOnce settings) s) fun _ _ _ => True) s₅ :=
        fun h₅ hop₅ => h₅.ret fun s₆ _ h₆ => ⟨_, _, h₆, hop₅⟩
      cases ns with
      | nil => exact hend h₄ hop₄
      | cons n ns =>
        refine h₄.commit (fun s₅ _ h₅ => ?_) (fun s₅ _ h₅ => h₅.spendOk (hcall hop₄) _)
          (fun _ _ ⟨settings, w, m, hc⟩ => absurd hc (hcall hop₄ settings w m))
          (fun _ s₅ _ _ _ _ _ h₅ => hend h₅ hop₄) fun e s₅ _ h₅ => ?_
        · rw [hb.staged]
          have hb₅ := hb.keep h₅.keeps fun u hu => (h₅.own u hu).2
          exact .batch items hb₅.jobs hb₅.events hb₅.closing
        · rw [hop₄, ← hop] at h₅
          exact h₅.raised fun _ _ => trivial
  · obtain ⟨g', c', h', hc'⟩ := h₂
    refine h'.leave (hcall hc') (fun s₃ _ h₃ => ?_) fun _ _ _ _ => trivial
    exact notifyAll_safe h₃ fun s₄ h₄ => h₄.ret fun _ _ _ => trivial

end StaleRunningRecovery

end CloudJob
