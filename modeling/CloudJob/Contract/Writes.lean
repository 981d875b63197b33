import CloudJob.Contract.Rules

/-!
# `Contract/Writes.lean` — the rules for writes, commits and messages

A write whose rows are locked already is staged and nothing else is learnt; one that takes a new
lock also tells what the row is. The rules for the individual statements say which of the outcomes
are possible, so that a program's proof does not meet the others. -/

set_option autoImplicit false

namespace CloudJob

open Lib

variable {P : Params} {p : Pid} {g : Ghost} {c : Core} {s s' : Shared} {β : Type}
  {Q : Except Exc β → Shared → Prop}

/-- The transaction with one statement more. -/
def Ghost.stage (g : Ghost) (rs : List LockRow) (st : Stmt) : Ghost :=
  { g with rows := rs ++ g.rows, staged := g.staged ++ [st] }

/-- A statement whose rows are locked, or are as they were at `c`. -/
theorem Held.stage (h : Held P p g c s) (st : Stmt)
    (hkeeps : Keeps (· ∈ st.rows ++ g.rows) c s.core) :
    Held P p (g.stage st.rows st) c ((s.lock p st.rows).stage p st) where
  origin := h.origin
  called := h.called
  locks r := by
    show (s.lock p st.rows).locks r = some p ↔ r ∈ st.rows ++ g.rows
    rw [Shared.locks_lock_self, List.mem_append, h.locks]
  staged := by
    show Function.update s.staged p (s.staged p ++ [st]) p = g.staged ++ [st]
    rw [Function.update_self, h.staged]
  reads := h.reads
  own := h.own
  keeps := hkeeps

/-- A statement whose rows are locked. -/
theorem Held.stageLocked (h : Held P p g c s) (st : Stmt) (hrows : ∀ r ∈ st.rows, r ∈ g.rows) :
    Held P p (g.stage [] st) c ((s.lock p st.rows).stage p st) := by
  have hmem : ∀ r, r ∈ st.rows ++ g.rows ↔ r ∈ g.rows := fun r => by
    rw [List.mem_append]
    exact ⟨fun hr => hr.elim (hrows r) id, .inr⟩
  have hst := h.stage st (h.keeps.mono fun r hr => (hmem r).mp hr)
  exact ⟨hst.origin, hst.called, fun r => (hst.locks r).trans (hmem r), hst.staged,
    hst.reads, hst.own,
    h.keeps⟩

theorem Held.write {st : Stmt} {f : Bool → Code β} (h : Held P p g c s)
    (hpre : ∀ s', Inv P s' → Held P p g c s' →
      Ready P s' p st ∧ ((∀ r ∈ st.rows, s'.free p r = true) ∨ g.rows = []))
    (hfirst : st.First g.staged)
    (hbatch : ∀ j settings, .job j ∈ st.rows → g.call = .recoverDueBatchOnce settings →
      .job j ∈ g.rows)
    (hmatch : ∀ s', Inv P s' → Held P p g c s' → Inv P ((s'.lock p st.rows).stage p st) →
      st.outcome (s'.core.db.applyAll g.staged) = .matched →
      (contract P).Safe p (f true) Q ((s'.lock p st.rows).stage p st))
    (hno : ∀ s', Inv P s' → Held P p g c s' →
      st.outcome (s'.core.db.applyAll g.staged) = .noMatch → (contract P).Safe p (f false) Q s')
    (hviolates : ∀ s' orig, Inv P s' → Held P p g c s' →
      st.outcome (s'.core.db.applyAll g.staged) = .violates orig →
      (contract P).Safe p (.raise (.integrity orig)) Q s')
    (herr : ∀ e s', e.isExternal = true → Inv P s' → Held P p g c s' → Q (.error e) s') :
    (contract P).Safe p ((call (.write st)).bind f) Q s := by
  refine h.plain rfl (fun s' hi hh => ?_) (fun s' r s'' hi hh hi' he => ?_) herr
  · refine ⟨(hpre s' hi hh).1, (hpre s' hi hh).2.imp_right fun hr => hh.holdsNothing hr,
      hh.staged ▸ hfirst, fun j settings hm hc => (hh.locks _).mpr (hbatch j settings hm ?_)⟩
    exact Option.some.inj (hh.called.symm.trans hc)
  · simp only [Shared.answer, hh.view] at he
    split at he
    · rename_i ho
      cases he
      exact hno s' hi hh ho
    · rename_i orig ho
      cases he
      exact hviolates s' orig hi hh ho
    · rename_i ho
      split at he
      · cases he
        exact hmatch s' hi hh hi' ho
      · cases he

/-! ## Logs and events -/

/-- A statement that needs no lock and no uuid. -/
theorem Ready.log (s : Shared) (p : Pid) (log : JobLog) : Ready P s p (.insertLog log) :=
  ⟨trivial, nofun, nofun, nofun, nofun, nofun, trivial⟩

theorem Held.insertLog {f : Bool → Code β} {log : JobLog} (h : Held P p g c s)
    (hok : ∀ s', Held P p (g.stage [] (.insertLog log)) c s' → (contract P).Safe p (f true) Q s')
    (herr : ∀ e s', e.isExternal = true → Inv P s' → Held P p g c s' → Q (.error e) s') :
    (contract P).Safe p ((call (.write (.insertLog log))).bind f) Q s :=
  h.write (fun s' _ _ => ⟨.log s' p log, .inl nofun⟩) nofun nofun
    (fun _ _ hh _ _ => hok _ (hh.stage (.insertLog log) hh.keeps)) (fun _ _ _ => nofun)
    (fun _ _ _ _ => nofun) herr

/-- `create_system_log`. -/
theorem Held.createSystemLog {j : Uuid} {level message : String} {f : Unit → Code β}
    (h : Held P p g c s)
    (hok : ∀ t s', Held P p (Ghost.stage { g with readings := t :: g.readings } []
      (.insertLog (systemLog j level message t))) c s' → (contract P).Safe p (f ()) Q s')
    (herr : ∀ e s', e.isExternal = true → Somewhere P p g.call s' → Q (.error e) s') :
    (contract P).Safe p ((JobLogs.createSystemLog j level message).bind f) Q s := by
  unfold JobLogs.createSystemLog utcNow
  simp only [Prog.bind_eq, Prog.pure_eq, Prog.bind_assoc, Prog.ret_bind]
  refine h.now fun t s₁ h₁ => h₁.insertLog (fun s₂ h₂ => hok t s₂ h₂) fun e s₂ he _ h₂ => ?_
  exact herr e s₂ he h₂.somewhere

theorem Keeps.add_event {L : List LockRow} {c c' : Core} {e : Uuid} (h : Keeps (· ∈ L) c c')
    (he : c'.db.event e = c.db.event e) : Keeps (· ∈ [LockRow.event e] ++ L) c c' := by
  have hsplit : ∀ {r : LockRow}, r ∈ [LockRow.event e] ++ L → r = .event e ∨ r ∈ L := by
    intro r hr
    simpa using hr
  refine ⟨h.toExtends, fun hr => ?_, fun {e'} hr => ?_, fun hr => ?_, fun hr => ?_, fun hr => ?_,
    fun hr => ?_⟩
  · exact h.job ((hsplit hr).resolve_left nofun)
  · rcases hsplit hr with heq | hr
    · cases heq
      exact he
    · exact h.event hr
  · exact h.key ((hsplit hr).resolve_left nofun)
  · exact h.pending ((hsplit hr).resolve_left nofun)
  · exact h.running ((hsplit hr).resolve_left nofun)
  · exact h.unspent ((hsplit hr).resolve_left nofun)

/-- A dispatch event under a uuid of one's own, for a job one has locked: there is nothing in its
way. -/
theorem Held.insertEvent {f : Bool → Code β} {e j : Uuid} {t at' : Datetime} (h : Held P p g c s)
    (hown : e ∈ g.own) (hfresh : c.db.event e = none)
    (hstaged : ∀ st ∈ g.staged, st.introduces ≠ some e) (hj : .job j ∈ g.rows)
    (hok : ∀ s', Held P p (g.stage [.event e] (.insertEvent (newDispatchEvent e j t at'))) c s' →
      (contract P).Safe p (f true) Q s')
    (herr : ∀ e s', e.isExternal = true → Inv P s' → Held P p g c s' → Q (.error e) s') :
    (contract P).Safe p ((call (.write (.insertEvent (newDispatchEvent e j t at')))).bind f) Q
        s := by
  have hnone : ∀ s', Held P p g c s' → s'.core.db.event e = none :=
    fun s' hh => (hh.own e hown).2.event hfresh
  have houtcome : ∀ s', Held P p g c s' →
      (Stmt.insertEvent (newDispatchEvent e j t at')).outcome (s'.core.db.applyAll g.staged) =
        .matched := by
    intro s' hh
    have hview := event_applyAll_none hstaged (hnone s' hh)
    simp [Stmt.outcome, newDispatchEvent, hview]
  refine h.write (fun s' hi hh => ?_) (fun _ hm => by simp [Stmt.rows] at hm)
    (fun _ _ hm => by simp [Stmt.rows] at hm) (fun s' hi hh _ _ => ?_) (fun s' _ hh ho => ?_)
    (fun s' orig _ hh ho => ?_) herr
  · refine ⟨⟨(hh.locks _).mpr hj, fun h => (by cases h), fun h => (by cases h), ?_,
      fun h => (by cases h),
      fun h => (by cases h), trivial⟩, .inl fun r hr => ?_⟩
    · intro u hu
      cases hu
      exact (hh.own e hown).1
    · -- nobody else can hold the row of an event that is not there yet
      simp only [Stmt.rows, newDispatchEvent, List.mem_singleton] at hr
      subst hr
      cases hl : s'.locks (.event e) with
      | none => simp [Shared.free, hl]
      | some q =>
        rcases hi.eventLocks hl with hsome | howner
        · exact absurd (hnone s' hh) hsome
        · rw [(hh.own e hown).1] at howner
          simp [Shared.free, hl, Option.some.inj howner]
  · exact hok _ (hh.stage (.insertEvent (newDispatchEvent e j t at'))
      (hh.keeps.add_event ((hnone s' hh).trans hfresh.symm)))
  · rw [houtcome s' hh] at ho
    cases ho
  · rw [houtcome s' hh] at ho
    cases ho

/-! ## Job updates -/

theorem Ready.updateJob {j : Uuid} {jst : JobStmt} (h : jst.issues = none)
    (hx : ∀ status now error, jst ≠ .markFailedWithoutExecution status now error)
    (hent : jst.Entitled P s p j) : Ready P s p (.updateJob j jst) := by
  refine ⟨trivial, fun hst hi => ?_, fun hst hi => ?_, nofun, nofun, fun hst => ?_, hent⟩
  · cases hst
    rw [h] at hi
    cases hi
  · cases hst
    rw [h] at hi
    cases hi
  · cases hst
    exact hx _ _ _ rfl

theorem outcome_updateJob {db : Db} {j : Uuid} {jst : JobStmt} {row : Job}
    (h : db.job j = some row) :
    (Stmt.updateJob j jst).outcome db = if jst.update.guard row then .matched else .noMatch := by
  simp [Stmt.outcome, h]

theorem not_mem_rows_of_nil {l : List Stmt} (h : l = []) (r : LockRow) : ∀ st ∈ l, r ∉ st.rows := by
  rw [h]
  exact fun _ hm => absurd hm List.not_mem_nil

theorem first_updateJob {j : Uuid} {jst : JobStmt} {l : List Stmt}
    (h : ∀ st ∈ l, LockRow.job j ∉ st.rows) : (Stmt.updateJob j jst).First l := by
  intro k hk
  simp only [Stmt.rows, List.mem_singleton, LockRow.job.injEq] at hk
  exact hk ▸ h

/-- An update of a job one has locked goes the way its `WHERE` goes on the row one has read. -/
theorem Held.updateLocked {f : Bool → Code β} {j : Uuid} {jst : JobStmt} (row : Job)
    (h : Held P p g c s) (hj : .job j ∈ g.rows)
    (hrow : c.db.job j = some row) (hfirst : ∀ st ∈ g.staged, LockRow.job j ∉ st.rows)
    (hready : ∀ s', Inv P s' → Held P p g c s' → Ready P s' p (.updateJob j jst))
    (hok : jst.update.guard row = true → ∀ s', Held P p (g.stage [] (.updateJob j jst)) c s' →
      (contract P).Safe p (f true) Q s')
    (hno : jst.update.guard row = false → ∀ s', Held P p g c s' →
      (contract P).Safe p (f false) Q s')
    (herr : ∀ e s', e.isExternal = true → Inv P s' → Held P p g c s' → Q (.error e) s') :
    (contract P).Safe p ((call (.write (.updateJob j jst))).bind f) Q s := by
  have hrows : ∀ r ∈ (Stmt.updateJob j jst).rows, r ∈ g.rows := by
    intro r hr
    simp only [Stmt.rows, List.mem_singleton] at hr
    exact hr ▸ hj
  have hview : ∀ s', Held P p g c s' → (s'.core.db.applyAll g.staged).job j = some row :=
      fun s' hh =>
    (job_applyAll hfirst).trans ((hh.keeps.job hj).trans hrow)
  refine h.write (fun s' hi hh => ⟨hready s' hi hh, .inl fun r hr => hh.free (hrows r hr)⟩)
    (first_updateJob hfirst) (fun k _ hk _ => hrows _ hk) (fun s' hi hh _ ho => ?_)
    (fun s' _ hh ho => ?_) (fun s' orig _ hh ho => ?_) herr
  · rw [outcome_updateJob (hview s' hh)] at ho
    split at ho
    · rename_i hg
      exact hok hg _ (hh.stageLocked (.updateJob j jst) hrows)
    · cases ho
  · rw [outcome_updateJob (hview s' hh)] at ho
    split at ho
    · cases ho
    · rename_i hg
      exact hno (by simpa using hg) s' hh
  · rw [outcome_updateJob (hview s' hh)] at ho
    split at ho <;> cases ho

/-- An update that opens a transaction: it locks the row it matched, and tells that it matched. -/
theorem Held.updateFirst {f : Bool → Code β} {j : Uuid} {jst : JobStmt} (h : Held P p g c s)
    (hr : g.rows = []) (hst : g.staged = []) (hi : jst.issues = none)
    (hx : ∀ status now error, jst ≠ .markFailedWithoutExecution status now error)
    (hcall : ∀ settings, g.call ≠ .recoverDueBatchOnce settings)
    (hent : ∀ s', Held P p g c s' → jst.Entitled P s' p j)
    (hok : ∀ c' row s', Keeps (· ∈ g.rows) c c' → c'.db.job j = some row →
      jst.update.guard row = true → Held P p (g.stage [.job j] (.updateJob j jst)) c' s' →
      (∀ u ∈ g.own, OwnKept u c c') → (contract P).Safe p (f true) Q s')
    (hno : ∀ s', Held P p g c s' → (contract P).Safe p (f false) Q s')
    (herr : ∀ e s', e.isExternal = true → Inv P s' → Held P p g c s' → Q (.error e) s') :
    (contract P).Safe p ((call (.write (.updateJob j jst))).bind f) Q s := by
  refine h.write (fun s' _ hh => ⟨.updateJob hi hx (hent s' hh), .inr hr⟩)
    (first_updateJob (not_mem_rows_of_nil hst _))
    (fun _ settings _ hc => absurd hc (hcall settings))
    (fun s' hi' hh _ ho => ?_) (fun s' _ hh _ => hno s' hh) (fun s' orig _ hh ho => ?_) herr
  · simp only [Stmt.outcome, hst, Db.applyAll_nil] at ho
    split at ho
    · rename_i hany
      obtain ⟨row, hrow, hg⟩ := (Option.any_eq_true _ _).mp hany
      refine hok s'.core row _ hh.keeps hrow hg ?_ fun u hu => (hh.own u hu).2
      exact (hh.rebase hi').stage (.updateJob j jst) (.refl _)
    · cases ho
  · simp only [Stmt.outcome] at ho
    split at ho <;> cases ho

/-! ## `create_dispatch_event_if_absent` -/

/-- What `create_dispatch_event_if_absent` adds to a transaction. -/
structure Ghost.Adds (g g' : Ghost) (evs : List Stmt) : Prop where
  call : g'.call = g.call
  rows : ∀ r ∈ g.rows, r ∈ g'.rows
  staged : g'.staged = g.staged ++ evs
  readings : ∀ t ∈ g.readings, t ∈ g'.readings
  own : ∀ u ∈ g.own, u ∈ g'.own
  fresh : ∀ e ∈ newEvents evs, e ∉ g.own ∧ e ∈ g'.own

/-- No dispatch of `j` is pending in the view where none is in the table, unless one was staged. -/
theorem Held.pending_view (h : Held P p g c s) {j : Uuid} (hj : .job j ∈ g.rows)
    (hapart : ∀ st ∈ g.staged, ∀ db, st.Apart db j) (e : Uuid) :
    (s.core.db.applyAll g.staged).Pending j e ↔ c.db.Pending j e :=
  (pending_applyAll fun st hst => hapart st hst _).trans (h.keeps.pending hj e)

theorem Held.createDispatchEventIfAbsent {f : Option OutboxEvent → Code β} {j : Uuid}
    {at' : Datetime}
    (h : Held P p g c s) (hj : .job j ∈ g.rows) (hapart : ∀ st ∈ g.staged, ∀ db, st.Apart db j)
    (hintro : ∀ st ∈ g.staged, ∀ u, st.introduces = some u → u ∈ g.own)
    (hnone : ∀ s', Redispatch c j at' [] → Held P p g c s' → (contract P).Safe p (f none) Q s')
    (hsome : ∀ g' ev s', Redispatch c j at' [.insertEvent ev] → g.Adds g' [.insertEvent ev] →
      Held P p g' c s' → (contract P).Safe p (f (some ev)) Q s')
    (herr : ∀ e s', e.isExternal = true → Somewhere P p g.call s' → Q (.error e) s') :
    (contract P).Safe p ((Outbox.createDispatchEventIfAbsent j at').bind f) Q s := by
  unfold Outbox.createDispatchEventIfAbsent
  simp only [Prog.bind_eq, Prog.pure_eq, Prog.bind_assoc]
  refine h.selectPendingDispatch (fun s₁ _ h₁ => ?_) fun e s₁ he _ h₁ => herr e s₁ he h₁.somewhere
  cases hp : (s₁.core.db.applyAll g.staged).pendingDispatch j with
  | some e =>
    have hpend := (h₁.pending_view hj hapart e).mp (Db.pendingDispatch_eq_some hp)
    exact hnone s₁ (.existing hpend) h₁
  | none =>
    have hno : ∀ e, ¬ c.db.Pending j e := fun e he =>
      Db.pendingDispatch_eq_none.mp hp e ((h₁.pending_view hj hapart e).mpr he)
    unfold Outbox.createDispatchEvent utcNow CloudJob.uuid4
    simp only [Prog.bind_eq, Prog.pure_eq, Prog.bind_assoc, Prog.ret_bind]
    refine h₁.now fun t s₂ h₂ => h₂.uuid4 fun u s₃ hu hnew h₃ => ?_
    refine h₃.insertEvent List.mem_cons_self hu.event (fun st hst hin =>
      hnew (hintro st hst u hin)) hj
      (fun s₄ h₄ => hsome _ _ s₄ (.new hno hu.event) ?_ h₄) fun e s₄ he _ h₄ => ?_
    · refine ⟨rfl, fun r hr => List.mem_append_right _ hr, rfl, fun t ht =>
        List.mem_cons_of_mem _ ht,
        fun v hv => List.mem_cons_of_mem _ hv, fun e he => ?_⟩
      simp only [newEvents, List.filterMap_cons, List.filterMap_nil, newDispatchEvent,
        List.mem_singleton] at he
      subst he
      exact ⟨hnew, List.mem_cons_self⟩
    · exact herr e s₄ he h₄.somewhere

/-- The same where what it answered is not looked at. -/
theorem Held.redispatch {f : Option OutboxEvent → Code β} {j : Uuid} {at' : Datetime}
    (h : Held P p g c s) (hj : .job j ∈ g.rows) (hapart : ∀ st ∈ g.staged, ∀ db, st.Apart db j)
    (hintro : ∀ st ∈ g.staged, ∀ u, st.introduces = some u → u ∈ g.own)
    (hok : ∀ r g' evs s', Redispatch c j at' evs → g.Adds g' evs → Held P p g' c s' →
      (contract P).Safe p (f r) Q s')
    (herr : ∀ e s', e.isExternal = true → Somewhere P p g.call s' → Q (.error e) s') :
    (contract P).Safe p ((Outbox.createDispatchEventIfAbsent j at').bind f) Q s :=
  h.createDispatchEventIfAbsent hj hapart hintro
    (fun s' hd hh => hok none g [] s' hd ⟨rfl, fun _ hr => hr, (List.append_nil _).symm,
      fun _ ht => ht, fun _ hu => hu, nofun⟩ hh)
    (fun g' ev s' hd ha hh => hok (some ev) g' _ s' hd ha hh) herr

/-! ## Commit -/

theorem Retried.of_none {l : List Stmt} (hl : l.filterMap Stmt.jobStmt = []) : Retried c l :=
  fun _ _ _ _ hm => absurd hm (update_not_mem hl)

theorem Retried.of_update {j : Uuid} {jst : JobStmt} {l : List Stmt}
    (hjst : ∀ token now error, jst ≠ .requeueRunning token now error)
    (hl : l.filterMap Stmt.jobStmt = []) : Retried c (.updateJob j jst :: l) :=
  fun _ token now error hm => absurd (update_mem_cons hm hl).2 (hjst token now error)

theorem Held.commit {f : Unit → Code β} (h : Held P p g c s)
    (htxn : ∀ s', Inv P s' → Held P p g c s' → Txn P s'.core g.staged)
    (hspend : ∀ s', Inv P s' → Held P p g c s' → SpendOk s' p (s'.core.db.applyAll g.staged))
    (hretry : ∀ s', Held P p g c s' → (∃ settings w m, g.call = .handleMessage settings w m) →
      Retried s'.core g.staged)
    (hok : ∀ s₀ s', Held P p g c s₀ → Inv P s' → s'.core.db = s₀.core.db.applyAll g.staged →
      s'.core.history = (s₀.core.commit p g.staged).history → Spent p s' →
      Held P p g.idle s'.core s' → (contract P).Safe p (f ()) Q s')
    (herr : ∀ e s', e.isExternal = true → Somewhere P p g.call s' → Q (.error e) s') :
    (contract P).Safe p ((call .commit).bind f) Q s := by
  have hdone : ∀ s', Inv P s' → Held P p g c s' → ∀ s'', Inv P s'' →
      s''.core.clock = s'.core.clock → s''.calls = s'.calls → s''.uuidOwner = s'.uuidOwner →
      (∀ r, s''.locks r ≠ some p) → s''.staged p = [] → Held P p g.idle s''.core s'' := by
    intro s' _ hh s'' hi'' hclock hcalls huuid hlocks hstaged
    refine ⟨hi''.lawful, by rw [hcalls]; exact hh.called, fun r => ?_, hstaged, ?_, fun u hu => ?_,
      .refl _⟩
    · refine ⟨fun hl => absurd hl (hlocks r), fun hm => ?_⟩
      cases hm
    · intro t ht
      rw [hclock]
      exact hh.reads t ht
    · exact ⟨by rw [huuid]; exact (hh.own u hu).1, .refl _ _⟩
  refine h.perform (fun s' hi hh => ?_) fun s' ch r s'' hi hh hi'' he => ?_
  · refine ⟨by rw [hh.staged]; exact htxn s' hi hh, by rw [hh.view]; exact hspend s' hi hh,
      fun hm => ?_⟩
    obtain ⟨m, hm⟩ := Option.isSome_iff_exists.mp hm
    obtain ⟨settings, w, hcall⟩ := hh.handling hm
    rw [hh.staged]
    exact hretry s' hh ⟨settings, w, m, hcall⟩
  · cases ch with
    | answer =>
      cases he
      have hcore : ∀ x : Shared, (x.spend p).core.db = x.core.db ∧
          (x.spend p).core.history = x.core.history ∧ (x.spend p).core.clock = x.core.clock ∧
          (x.spend p).locks = x.locks ∧ (x.spend p).staged = x.staged ∧
          (x.spend p).calls = x.calls ∧ (x.spend p).uuidOwner = x.uuidOwner := by
        intro x
        rcases x.spend_cases p with hs | ⟨m, -, hs⟩ <;> rw [hs] <;>
          exact ⟨rfl, rfl, rfl, rfl, rfl, rfl, rfl⟩
      obtain ⟨hdb, hhist, hclock, hlocks, hstaged, hcalls, huuid⟩ :=
        hcore ({ s' with core := s'.core.commit p (s'.staged p) }.release p)
      refine hok s' _ hh hi'' ?_ ?_ (Shared.spend_spent _ p)
        (hdone s' hi hh _ hi'' hclock hcalls huuid ?_ ?_)
      · rw [hdb, ← hh.staged]
        rfl
      · rw [hhist, ← hh.staged]
        rfl
      · intro r hl
        rw [hlocks] at hl
        exact Shared.locks_release_self r hl
      · rw [hstaged]
        exact Shared.staged_release_self
    | fails text =>
      cases he
      exact hh.raise fun s₁ _ hh₁ => herr _ s₁ rfl hh₁.somewhere
    | failsAfter text =>
      cases he
      have hd := hdone s' hi hh _ hi'' rfl rfl rfl (fun r => Shared.locks_release_self r)
        Shared.staged_release_self
      exact hd.raise fun s₁ _ hh₁ => herr _ s₁ rfl hh₁.somewhere
    | _ => cases he

/-! ## Messages, notes, reservations -/

/-- The durable state changed, but not its tables. -/
theorem Held.sameTables {c' : Core} (h : Held P p g c s) (hs : SameTables s.core c')
    (hu : ∀ {j : Uuid}, s.core.Unspent j → c'.Unspent j)
    (ht : ∀ u ∈ g.own, c'.startedAs u = s.core.startedAs u) :
    Held P p g c { s with core := c' } where
  origin := h.origin
  called := h.called
  locks := h.locks
  staged := h.staged
  reads t ht := (h.reads t ht).mono hs.clock
  own u hu' := ⟨(h.own u hu').1, (h.own u hu').2.trans (.of_sameTables hs (ht u hu'))⟩
  keeps := h.keeps.trans (.of_sameTables hs fun _ => hu)

theorem Held.publishDispatch {f : Unit → Code β} {m : DispatchOutboxMessage} {ev : OutboxEvent}
    (h : Held P p g c s) (hop : ∃ settings, g.call = .publishDueBatchOnce settings)
    (hj : .job m.jobId ∈ g.rows) (hjob : (c.db.job m.jobId).isSome = true)
    (he : .event m.eventId ∈ g.rows) (hev : c.db.event m.eventId = some ev)
    (hun : ev.publishedAt = none) (hdue : c.WasDue P m.eventId)
    (hok : ∀ c' s', Keeps (· ∈ g.rows) c c' → c'.Unspent m.jobId → Held P p g c' s' →
      (contract P).Safe p (f ()) Q s')
    (herr : ∀ e s', e.isExternal = true → Inv P s' → Held P p g c s' → Q (.error e) s') :
    (contract P).Safe p ((call (.publishDispatch m)).bind f) Q s := by
  have hsent : ∀ s', Held P p g c s' →
      Held P p g c { s' with core := s'.core.send (.dispatch m) } := fun s' hh =>
    hh.sameTables (.of_db rfl le_rfl rfl fun _ h => h) Core.Unspent.send fun _ _ => rfl
  refine h.perform (fun s' _ hh => ?_) fun s' ch r s'' hi hh hi'' he => ?_
  · refine ⟨hop.imp fun settings hc => hh.called.trans (congrArg some hc), ?_, (hh.locks _).mpr he,
      hdue.mono hh.keeps.clock hh.keeps.history, ev,
      (hh.keeps.event he).trans hev, hun⟩
    rw [hh.keeps.job hj]
    exact hjob
  · cases ch with
    | answer =>
      cases he
      have hh' := hsent s' hh
      refine hok _ _ hh'.keeps ?_ (hh'.rebase hi'')
      refine ⟨⟨s'.core.nextMsg, .dispatch m⟩, List.mem_cons_self, ⟨m, rfl, rfl⟩, fun hin => ?_⟩
      exact absurd (hi.lawful.wellFormed.spentSent hin) (Nat.lt_irrefl _)
    | fails text =>
      cases he
      exact hh.raise fun s₁ hi₁ hh₁ => herr _ s₁ rfl hi₁ hh₁
    | failsAfter text =>
      cases he
      exact (hsent s' hh).raise fun s₁ hi₁ hh₁ => herr _ s₁ rfl hi₁ hh₁
    | _ => cases he

theorem Held.note {o : Op} {f : o.Ret → Code β} (ho : o.isPlain = true) (h : Held P p g c s)
    (hpre : ∀ s', Pre P p o s')
    (hans : ∀ (s' : Shared) (r : Except Exc o.Ret) (s'' : Shared), s'.answer p o = some (r, s'') →
      ∃ a ev, r = .ok a ∧
      s'' = { s' with core := s'.core.record p [ev] } ∧
      ((∃ u, ev = .invalidated u) ∨ ∃ n, ev = .announced n))
    (hok : ∀ a s', Held P p g c s' → (contract P).Safe p (f a) Q s')
    (herr : ∀ e s', e.isExternal = true → Inv P s' → Held P p g c s' → Q (.error e) s') :
    (contract P).Safe p ((call o).bind f) Q s := by
  refine h.plain ho (fun s' _ _ => hpre s') (fun s' r s'' _ hh _ he => ?_) herr
  obtain ⟨a, ev, rfl, rfl, hev⟩ := hans s' r s'' he
  refine hok a _ (hh.sameTables (.record (Core.committed_note _ _ hev)) id fun u _ => ?_)
  rw [Core.startedAs_record]
  obtain ⟨o, rfl⟩ | ⟨n, rfl⟩ := hev <;> rfl

theorem Held.redisInvalidate {f : Unit → Code β} {o : Uuid} (h : Held P p g c s)
    (hok : ∀ s', Held P p g c s' → (contract P).Safe p (f ()) Q s')
    (herr : ∀ e s', e.isExternal = true → Inv P s' → Held P p g c s' → Q (.error e) s') :
    (contract P).Safe p ((call (.redisInvalidate o)).bind f) Q s := by
  refine h.note rfl (fun _ => trivial) (fun s' r s'' he => ?_) (fun _ => hok) herr
  cases he
  exact ⟨(), _, rfl, rfl, .inl ⟨_, rfl⟩⟩

theorem Held.redisPublish {f : Unit → Code β} {ev : JobStatusEvent} (h : Held P p g c s)
    (hok : ∀ s', Held P p g c s' → (contract P).Safe p (f ()) Q s')
    (herr : ∀ e s', e.isExternal = true → Inv P s' → Held P p g c s' → Q (.error e) s') :
    (contract P).Safe p ((call (.redisPublish ev)).bind f) Q s := by
  refine h.note rfl (fun _ => trivial) (fun s' r s'' he => ?_) (fun _ => hok) herr
  cases he
  exact ⟨(), _, rfl, rfl, .inr ⟨_, rfl⟩⟩

/-- `invalidate_owner` never raises and changes nothing that is known. -/
theorem Held.invalidateOwner {f : Unit → Code β} {o : Uuid} (h : Held P p g c s)
    (hok : ∀ s', Held P p g c s' → (contract P).Safe p (f ()) Q s') :
    (contract P).Safe p ((invalidateOwner o).bind f) Q s := by
  refine Protocol.Safe.bind (Protocol.Safe.tryCatch ?_)
  rw [← Prog.bind_ret (call _)]
  refine h.redisInvalidate (fun s₁ h₁ => h₁.ret fun s₂ _ h₂ => h₂.ret fun s₃ _ h₃ => hok s₃ h₃) ?_
  intro e s₁ _ _ h₁
  exact h₁.ret fun s₂ _ h₂ => hok s₂ h₂

theorem Held.notifyJobStateChanged {f : Unit → Code β} {n : JobPostCommitNotification}
    (h : Held P p g c s) (hok : ∀ s', Held P p g c s' → (contract P).Safe p (f ()) Q s') :
    (contract P).Safe p ((notifyJobStateChanged n).bind f) Q s := by
  unfold CloudJob.notifyJobStateChanged
  simp only [Prog.bind_eq, Prog.bind_assoc]
  refine Protocol.Safe.bind (Protocol.Safe.tryCatch ?_)
  rw [← Prog.bind_ret (CloudJob.invalidateOwner _)]
  refine h.invalidateOwner fun s₁ h₁ => h₁.ret fun s₂ _ h₂ => h₂.ret fun s₃ _ h₃ => ?_
  refine Protocol.Safe.bind (Protocol.Safe.tryCatch ?_)
  unfold publishStatus
  rw [← Prog.bind_ret (call _)]
  refine h₃.redisPublish (fun s₄ h₄ => h₄.ret fun s₅ _ h₅ => h₅.ret fun s₆ _ h₆ => hok s₆ h₆) ?_
  intro e s₄ _ _ h₄
  exact h₄.ret fun s₅ _ h₅ => hok s₅ h₅

/-- The same, under the further `try` each component puts around it. -/
theorem Held.notifyPostCommit {f : Unit → Code β} {n : JobPostCommitNotification}
    (h : Held P p g c s) (hok : ∀ s', Held P p g c s' → (contract P).Safe p (f ()) Q s') :
    (contract P).Safe p
      ((Prog.tryCatch (CloudJob.notifyJobStateChanged n) fun _ => .ret ()).bind f) Q s := by
  refine Protocol.Safe.bind (Protocol.Safe.tryCatch ?_)
  rw [← Prog.bind_ret (CloudJob.notifyJobStateChanged n)]
  exact h.notifyJobStateChanged fun s₁ h₁ => h₁.ret fun s₂ _ h₂ => h₂.ret fun s₃ _ h₃ => hok s₃ h₃

end CloudJob
