import CloudJob.Frame
import CloudJob.Lifecycle.Effect

/-!
# `Lifecycle/Batch.lean` — a transaction is a run of actions

Recovery commits its whole batch at once. The closings in it are about different jobs, so each one
leaves the guards of the others alone (`Closing.congr`, with the frame lemmas of `Frame.lean`), and
the batch amounts to its closings one after the other: `Lawful.txn`. The rows of a transaction are
read off the same decomposition (`Txn.row_cases`): a job is touched by at most one statement of
it. -/

set_option autoImplicit false

namespace CloudJob

open Lib

variable {P : Params} {c c' : Core} {j k : Uuid} {l : List Stmt}

theorem Params.ReadBy.mono {now now' t : Datetime} (h : P.ReadBy now t) (hle : now ≤ now') :
    P.ReadBy now' t := by
  obtain ⟨t₀, ht₀, hr⟩ := h
  exact ⟨t₀, ht₀.trans hle, hr⟩

theorem Core.RunsAs.congr {token : Uuid} {row : Job} (h : c.RunsAs j token row)
    (hrow : c'.db.job j = c.db.job j) : c'.RunsAs j token row :=
  ⟨hrow.trans h.found, h.running, h.token⟩

theorem Redispatch.congr {at' : Datetime} (h : Redispatch c j at' l)
    (hpend : ∀ e, c'.db.Pending j e ↔ c.db.Pending j e)
    (hnew : ∀ e ∈ newEvents l, c'.db.event e = none) : Redispatch c' j at' l := by
  cases h with
  | existing he => exact .existing ((hpend _).mpr he)
  | new hno _ =>
    exact .new (fun e he => hno e ((hpend e).mp he))
      (hnew _ (by simp [newEvents, newDispatchEvent]))

/-- The event it inserts is new. -/
theorem Redispatch.fresh {at' : Datetime} (h : Redispatch c j at' l) :
    ∀ e ∈ newEvents l, c.db.event e = none := by
  intro e he
  cases h with
  | existing => cases he
  | new _ hnone =>
    simp only [newEvents, List.filterMap_cons, List.filterMap_nil, newDispatchEvent,
      List.mem_singleton] at he
    exact he ▸ hnone

theorem Redispatch.nodup {at' : Datetime} (h : Redispatch c j at' l) : (newEvents l).Nodup := by
  cases h with
  | existing => exact List.nodup_nil
  | new => exact List.nodup_singleton _

theorem newEvents_append (l₁ l₂ : List Stmt) :
    newEvents (l₁ ++ l₂) = newEvents l₁ ++ newEvents l₂ :=
  List.filterMap_append

/-- What closes job `j` only looks at `j`, its pending events, and the events it inserts. -/
theorem Closing.congr (h : Closing P c j l) (hrow : c'.db.job j = c.db.job j)
    (hpend : ∀ e, c'.db.Pending j e ↔ c.db.Pending j e)
    (hnew : ∀ e ∈ newEvents l, c'.db.event e = none) (hclock : c.clock ≤ c'.clock) :
    Closing P c' j l := by
  have hev : ∀ {st log : Stmt} {ev : List Stmt}, newEvents [st] = [] →
      (∀ e ∈ newEvents (st :: (ev ++ [log])), c'.db.event e = none) →
      ∀ e ∈ newEvents ev, c'.db.event e = none := by
    intro st log ev hst h e he
    refine h e ?_
    rw [← List.singleton_append, newEvents_append, newEvents_append]
    exact List.mem_append_right _ (List.mem_append_left _ he)
  cases h with
  | completed h hn => exact .completed (h.congr hrow) (hn.mono hclock)
  | cancelled h hn => exact .cancelled (h.congr hrow) (hn.mono hclock)
  | failed h hn => exact .failed (h.congr hrow) (hn.mono hclock)
  | retried h hn hlt hd hr =>
    exact .retried (h.congr hrow) (hn.mono hclock) hlt hd (hr.congr hpend (hev rfl hnew))
  | staleFailed h hn hx hlt => exact .staleFailed (h.congr hrow) (hn.mono hclock) hx hlt
  | staleRequeued h hn hx hle hr =>
    exact .staleRequeued (h.congr hrow) (hn.mono hclock) hx hle (hr.congr hpend (hev rfl hnew))

/-- The statements of a closing: updates of its job, dispatches of it, and logs. -/
theorem Closing.stmt_cases (h : Closing P c k l) : ∀ st ∈ l, (∃ s, st = .updateJob k s) ∨
    (∃ log, st = .insertLog log) ∨
    ∃ e t at', st = .insertEvent (newDispatchEvent e k t at') ∧ e ∈ newEvents l := by
  have hrequeue : ∀ {s : JobStmt} {log : JobLog} {at' : Datetime} {ev : List Stmt},
      Redispatch c k at' ev → ∀ st ∈ Stmt.updateJob k s :: (ev ++ [.insertLog log]),
      (∃ s, st = .updateJob k s) ∨ (∃ log, st = .insertLog log) ∨
      ∃ e t a, st = .insertEvent (newDispatchEvent e k t a) ∧
        e ∈ newEvents (Stmt.updateJob k s :: (ev ++ [.insertLog log])) := by
    intro s log at' ev hr st hst
    rcases List.mem_cons.mp hst with rfl | hst
    · exact .inl ⟨s, rfl⟩
    · rcases List.mem_append.mp hst with hst | hst
      · cases hr with
        | existing => cases hst
        | @new e t _ _ =>
          rw [List.mem_singleton] at hst
          exact .inr (.inr ⟨e, t, at', hst, by simp [newEvents, newDispatchEvent]⟩)
      · rw [List.mem_singleton] at hst
        exact .inr (.inl ⟨log, hst⟩)
  have hpair : ∀ {s : JobStmt} {log : JobLog}, ∀ st ∈ [Stmt.updateJob k s, .insertLog log],
      (∃ s, st = .updateJob k s) ∨ (∃ log, st = .insertLog log) ∨
      ∃ e t a, st = .insertEvent (newDispatchEvent e k t a) ∧
        e ∈ newEvents [Stmt.updateJob k s, .insertLog log] := by
    intro s log st hst
    rcases List.mem_cons.mp hst with rfl | hst
    · exact .inl ⟨s, rfl⟩
    · rw [List.mem_singleton] at hst
      exact .inr (.inl ⟨log, hst⟩)
  cases h with
  | completed => exact hpair
  | cancelled => exact hpair
  | failed => exact hpair
  | retried _ _ _ _ hr => exact hrequeue hr
  | staleFailed => exact hpair
  | staleRequeued _ _ _ _ hr => exact hrequeue hr

/-- What closing `k` does to the rest: nothing. -/
theorem Closing.frame (h : Closing P c k l) (hj : j ≠ k) (db : Db) :
    (db.applyAll l).job j = db.job j ∧
    (∀ e, (db.applyAll l).Pending j e ↔ db.Pending j e) ∧
    ∀ e, e ∉ newEvents l → db.event e = none → (db.applyAll l).event e = none := by
  refine ⟨job_applyAll fun st hst hr => ?_, fun e => pending_applyAll fun st hst => ?_,
    fun e he hnone => event_applyAll_none (fun st hst hin => ?_) hnone⟩
  · rcases h.stmt_cases st hst with ⟨s, rfl⟩ | ⟨log, rfl⟩ | ⟨e, t, at', rfl, -⟩
    · simp only [Stmt.rows, List.mem_singleton, LockRow.job.injEq] at hr
      exact hj hr
    · cases hr
    · simp [Stmt.rows] at hr
  · rcases h.stmt_cases st hst with ⟨s, rfl⟩ | ⟨log, rfl⟩ | ⟨e, t, at', rfl, -⟩
    · trivial
    · trivial
    · exact fun hk => hj hk.symm
  · rcases h.stmt_cases st hst with ⟨s, rfl⟩ | ⟨log, rfl⟩ | ⟨e', t, at', rfl, hmem⟩
    · cases hin
    · cases hin
    · simp only [Stmt.introduces, newDispatchEvent, Option.some.injEq] at hin
      exact he (hin ▸ hmem)

/-- The closings of a batch after the first one of them. -/
theorem Closing.after {l₁ : List Stmt} (h₁ : Closing P c k l₁) (h : Closing P c j l) (hj : j ≠ k)
    (hdisj : ∀ e ∈ newEvents l, e ∉ newEvents l₁) (hfresh : ∀ e ∈ newEvents l, c.db.event e = none)
    (p : Pid) : Closing P (c.commit p l₁) j l := by
  obtain ⟨hrow, hpend, hev⟩ := h₁.frame hj c.db
  exact h.congr hrow hpend (fun e he => hev e (hdisj e he) (hfresh e he)) le_rfl

/-- The events a closing inserts are new. -/
theorem Closing.fresh (h : Closing P c j l) : ∀ e ∈ newEvents l, c.db.event e = none := by
  have hrequeue : ∀ {s : JobStmt} {log : JobLog} {at' : Datetime} {ev : List Stmt},
      Redispatch c j at' ev → ∀ e ∈ newEvents (Stmt.updateJob j s :: (ev ++ [.insertLog log])),
      c.db.event e = none := by
    intro s log at' ev hr e he
    refine hr.fresh e ?_
    rw [← List.singleton_append, newEvents_append, newEvents_append] at he
    simpa [newEvents] using he
  cases h with
  | retried _ _ _ _ hr => exact hrequeue hr
  | staleRequeued _ _ _ _ hr => exact hrequeue hr
  | _ => exact nofun

/-- **A transaction is a run of actions**: what every action keeps, a transaction keeps. -/
theorem Txn.induct {R : Core → Prop} {p : Pid}
    (hact : ∀ c l, R c → Action P c l → R (c.commit p l)) {c : Core} {l : List Stmt}
    (h : Txn P c l) (hc : R c) : R (c.commit p l) := by
  cases h with
  | action h => exact hact _ _ hc h
  | batch items hjobs hevents hall =>
    induction items generalizing c with
    | nil => exact hact _ _ hc .idle
    | cons x items ih =>
      have hx := hall x List.mem_cons_self
      rw [List.flatMap_cons, Core.commit_append]
      rw [List.flatMap_cons, newEvents_append, List.nodup_append] at hevents
      rw [List.map_cons, List.nodup_cons] at hjobs
      refine ih (hact _ _ hc (.close hx)) hjobs.2 hevents.2.1 fun y hy => ?_
      have hy' := hall y (List.mem_cons_of_mem _ hy)
      refine hx.after hy' ?_ ?_ hy'.fresh p
      · intro heq
        exact hjobs.1 (heq ▸ List.mem_map_of_mem hy)
      · intro e he he'
        refine hevents.2.2 e he' e ?_ rfl
        obtain ⟨st, hst, hf⟩ := List.mem_filterMap.mp he
        exact List.mem_filterMap.mpr ⟨st, List.mem_flatMap.mpr ⟨y, hy, hst⟩, hf⟩

/-! ## The rows of a transaction -/

theorem update_not_mem (hl : l.filterMap Stmt.jobStmt = []) {st : JobStmt} :
    .updateJob j st ∉ l := by
  intro hm
  have hmem : (j, st) ∈ l.filterMap Stmt.jobStmt := List.mem_filterMap.mpr ⟨_, hm, rfl⟩
  rw [hl] at hmem
  cases hmem

/-- A transaction that begins with a job statement and has no other. -/
theorem update_mem_cons {jst st : JobStmt} (hm : .updateJob j st ∈ Stmt.updateJob k jst :: l)
    (hl : l.filterMap Stmt.jobStmt = []) : j = k ∧ jst = st := by
  rcases List.mem_cons.mp hm with heq | hm
  · cases heq
    exact ⟨rfl, rfl⟩
  · exact absurd hm (update_not_mem hl)

theorem job_flatMap_of_not_mem {items : List (Uuid × List Stmt)}
    (hall : ∀ x ∈ items, Closing P c x.1 x.2) (hk : k ∉ items.map Prod.fst) (db : Db) :
    (db.applyAll (items.flatMap Prod.snd)).job k = db.job k := by
  induction items generalizing db with
  | nil => rfl
  | cons x items ih =>
    rw [List.map_cons, List.mem_cons, not_or] at hk
    rw [List.flatMap_cons, Db.applyAll_append,
      ih (fun y hy => hall y (List.mem_cons_of_mem _ hy)) hk.2]
    exact ((hall x List.mem_cons_self).frame hk.1 db).1

/-- A job of the batch gets the row that the statement of its closing makes. -/
theorem job_flatMap_of_mem {items : List (Uuid × List Stmt)} (hjobs : (items.map Prod.fst).Nodup)
    (hall : ∀ x ∈ items, Closing P c x.1 x.2) {x : Uuid × List Stmt} (hx : x ∈ items) {st : JobStmt}
    {rest : List Stmt} {row : Job} (hl : x.2 = .updateJob x.1 st :: rest)
    (hrow : c.db.job x.1 = some row) (hg : st.update.guard row = true)
    (hrest : ∀ db : Db, (db.applyAll rest).jobs = db.jobs ∧ rest.filterMap Stmt.jobStmt = []) :
    (c.db.applyAll (items.flatMap Prod.snd)).job x.1 = some (st.update.set row) := by
  obtain ⟨before, after, rfl⟩ := List.append_of_mem hx
  rw [List.map_append, List.map_cons, List.nodup_append, List.nodup_cons] at hjobs
  have hbefore : x.1 ∉ before.map Prod.fst := fun hb => hjobs.2.2 _ hb _ List.mem_cons_self rfl
  rw [List.flatMap_append, List.flatMap_cons, Db.applyAll_append, Db.applyAll_append,
    job_flatMap_of_not_mem (fun y hy => hall y (by simp [hy])) hjobs.2.1.1, hl, Db.applyAll_cons,
    Db.job, (hrest _).1, ← Db.job, job_updateJob, if_pos rfl,
    job_flatMap_of_not_mem (fun y hy => hall y (by simp [hy])) hbefore, hrow, Option.map_some,
    JobUpdate.run_of_guard hg]

/-- Every job update of a transaction fires, and the row it makes is the one that is committed. -/
theorem Txn.update_mem (h : Txn P c l) {st : JobStmt} (hm : .updateJob j st ∈ l) :
    ∃ row, c.db.job j = some row ∧ st.update.guard row = true ∧ st.Allowed P c row ∧
      (c.db.applyAll l).job j = some (st.update.set row) := by
  cases h with
  | action h =>
    have hnot : (c.commit 0 l).committed ≠ c.committed := by
      intro heq
      rw [Core.committed_commit, List.append_left_eq_self, List.reverse_eq_nil_iff] at heq
      exact update_not_mem heq hm
    cases h.jobEffect 0 with
    | none _ hcom => exact absurd hcom hnot
    | insert _ _ _ _ _ _ _ _ _ _ _ _ hcom => exact absurd hcom hnot
    | update k st' row hrow hg ha hjobs hcom =>
      rw [Core.committed_commit, ← List.singleton_append] at hcom
      have heq : (j, st) ∈ l.filterMap Stmt.jobStmt := List.mem_filterMap.mpr ⟨_, hm, rfl⟩
      rw [← List.mem_reverse, List.append_cancel_right hcom, List.mem_singleton] at heq
      cases heq
      refine ⟨row, hrow, hg, ha, ?_⟩
      rw [← Core.commit_db c 0, Db.job, hjobs, Table.find?_modify, if_pos rfl,
        show c.db.jobs.find? j = some row from hrow, Option.map_some, JobUpdate.run_of_guard hg]
  | batch items hjobs _ hall =>
    obtain ⟨x, hx, hm⟩ := List.mem_flatMap.mp hm
    obtain ⟨st', rest, row, hl, hrow, hg, ha, hrest⟩ := (hall x hx).head
    have hset := job_flatMap_of_mem hjobs hall hx hl hrow hg hrest
    rw [hl] at hm
    obtain ⟨rfl, rfl⟩ := update_mem_cons hm (hrest c.db).2
    exact ⟨row, hrow, hg, ha, hset⟩

/-- The row of `k` after a transaction: as before, new, or rewritten by the one statement on it. -/
theorem Txn.row_cases (h : Txn P c l) {row' : Job} (hk : (c.db.applyAll l).job k = some row') :
    c.db.job k = some row' ∨
    (c.db.job k = none ∧ ∃ owner type payload key retries createdAt updatedAt,
      row' = newPendingJob k owner type payload key (P.buildRequestHash type payload) retries
        createdAt updatedAt) ∨
    ∃ row st, c.db.job k = some row ∧ st.update.guard row = true ∧ st.Allowed P c row ∧
      row' = st.update.set row ∧ .updateJob k st ∈ l := by
  cases h with
  | action h =>
    refine ((h.jobEffect 0).row_cases hk).imp_right fun hr => hr.imp_right ?_
    rintro ⟨row, st, hrow, hg, ha, rfl, hcom⟩
    refine ⟨row, st, hrow, hg, ha, rfl, ?_⟩
    rw [Core.committed_commit, ← List.singleton_append] at hcom
    have hmem : (k, st) ∈ l.filterMap Stmt.jobStmt := by
      rw [← List.mem_reverse, List.append_cancel_right hcom]
      exact List.mem_singleton_self _
    obtain ⟨s, hs, hjs⟩ := List.mem_filterMap.mp hmem
    cases s with
    | updateJob id s =>
      cases hjs
      exact hs
    | _ => cases hjs
  | batch items hjobs hevents hall =>
    by_cases hmem : k ∈ items.map Prod.fst
    · obtain ⟨x, hx, rfl⟩ := List.mem_map.mp hmem
      obtain ⟨st, rest, row, hl, hrow, hg, ha, hrest⟩ := (hall x hx).head
      rw [job_flatMap_of_mem hjobs hall hx hl hrow hg hrest] at hk
      cases hk
      refine .inr (.inr ⟨row, st, hrow, hg, ha, rfl, List.mem_flatMap.mpr ⟨x, hx, ?_⟩⟩)
      rw [hl]
      exact List.mem_cons_self
    · rw [job_flatMap_of_not_mem hall hmem] at hk
      exact .inl hk

/-- A closing uses a time that was read. -/
theorem Closing.readBy (h : Closing P c k l) {st : JobStmt} (hm : .updateJob j st ∈ l) :
    P.ReadBy c.clock st.now := by
  have hnil : ∀ {at' : Datetime} {ev : List Stmt} (log : JobLog), Redispatch c k at' ev →
      (ev ++ [Stmt.insertLog log]).filterMap Stmt.jobStmt = [] := by
    intro at' ev log hev
    rw [List.filterMap_append, (hev.jobs c.db).2]
    rfl
  cases h with
  | completed _ hn => exact (update_mem_cons hm rfl).2 ▸ hn
  | cancelled _ hn => exact (update_mem_cons hm rfl).2 ▸ hn
  | failed _ hn => exact (update_mem_cons hm rfl).2 ▸ hn
  | retried _ hn _ _ hr => exact (update_mem_cons hm (hnil _ hr)).2 ▸ hn
  | staleFailed _ hn _ _ => exact (update_mem_cons hm rfl).2 ▸ hn
  | staleRequeued _ hn _ _ hr => exact (update_mem_cons hm (hnil _ hr)).2 ▸ hn

/-- So does every transaction. -/
theorem Txn.readBy (h : Txn P c l) {st : JobStmt} (hm : .updateJob j st ∈ l) :
    P.ReadBy c.clock st.now := by
  cases h with
  | batch items _ _ hall =>
    obtain ⟨x, hx, hm⟩ := List.mem_flatMap.mp hm
    exact (hall x hx).readBy hm
  | action h =>
    cases h with
    | queue _ _ _ hn => exact (update_mem_cons hm rfl).2 ▸ hn
    | claim _ _ _ _ _ _ hn => exact (update_mem_cons hm rfl).2 ▸ hn
    | cancel _ _ hn => exact (update_mem_cons hm rfl).2 ▸ hn
    | requestCancel _ _ _ hn => exact (update_mem_cons hm rfl).2 ▸ hn
    | close h => exact h.readBy hm
    | create => exact absurd hm (update_not_mem rfl)
    | republish => exact absurd hm (update_not_mem rfl)
    | discard => exact absurd hm (update_not_mem rfl)
    | recordFailure => exact absurd hm (update_not_mem rfl)
    | idle => exact absurd hm (update_not_mem rfl)
    | defer => exact absurd hm (update_not_mem rfl)

/-! ## The events of a transaction -/

/-- What `create_dispatch_event_if_absent` inserts is a new event of a job without a pending one. -/
theorem Redispatch.insert_mem {at' : Datetime} (h : Redispatch c j at' l) {ev : OutboxEvent}
    (hm : .insertEvent ev ∈ l) : c.db.event ev.id = none ∧ ev.aggregateId = j ∧
      (∀ e, ¬ c.db.Pending j e) ∧ ev.availableAt = at' ∧ l = [.insertEvent ev] := by
  cases h with
  | existing => cases hm
  | new hno he =>
    rw [List.mem_singleton] at hm
    cases hm
    exact ⟨he, rfl, hno, rfl, rfl⟩

/-- A closing inserts what its redispatch does. -/
theorem Closing.insert_mem (h : Closing P c j l) {ev : OutboxEvent} (hm : .insertEvent ev ∈ l) :
    ∃ at' l', Redispatch c j at' l' ∧ ∀ ev', .insertEvent ev' ∈ l ↔ .insertEvent ev' ∈ l' := by
  cases h with
  | retried _ _ _ _ hr => exact ⟨_, _, hr, fun ev' => by simp⟩
  | staleRequeued _ _ _ _ hr => exact ⟨_, _, hr, fun ev' => by simp⟩
  | _ => simp at hm

/-- The event an action inserts is new and its only one, and its job is new or has none pending. -/
theorem Action.insert_mem (h : Action P c l) {ev : OutboxEvent} (hm : .insertEvent ev ∈ l) :
    c.db.event ev.id = none ∧
    (c.db.job ev.aggregateId = none ∨ ∀ e, ¬ c.db.Pending ev.aggregateId e) ∧
    ∀ ev', .insertEvent ev' ∈ l → ev' = ev := by
  cases h with
  | create _ _ hid he =>
    simp only [List.mem_cons, reduceCtorEq, false_or, List.not_mem_nil, or_false,
      Stmt.insertEvent.injEq] at hm ⊢
    subst hm
    exact ⟨he, .inl hid, fun _ heq => heq⟩
  | defer _ _ hno he =>
    simp only [List.mem_cons, reduceCtorEq, List.not_mem_nil, or_false,
      Stmt.insertEvent.injEq] at hm ⊢
    subst hm
    exact ⟨he, .inr hno, fun _ heq => heq⟩
  | close h =>
    obtain ⟨at', l', hr, hiff⟩ := h.insert_mem hm
    obtain ⟨he, hagg, hno, -, hl⟩ := hr.insert_mem ((hiff ev).mp hm)
    refine ⟨he, .inr (hagg ▸ hno), fun ev' hm' => ?_⟩
    have hmem := (hiff ev').mp hm'
    rw [hl, List.mem_singleton] at hmem
    exact Stmt.insertEvent.inj hmem
  | _ => simp at hm

theorem Txn.insert_mem (h : Txn P c l) {ev : OutboxEvent} (hm : .insertEvent ev ∈ l) :
    c.db.event ev.id = none ∧
      (c.db.job ev.aggregateId = none ∨ ∀ e, ¬ c.db.Pending ev.aggregateId e) := by
  cases h with
  | action h =>
    obtain ⟨he, hjob, -⟩ := h.insert_mem hm
    exact ⟨he, hjob⟩
  | batch items _ _ hall =>
    obtain ⟨x, hx, hm⟩ := List.mem_flatMap.mp hm
    obtain ⟨he, hjob, -⟩ := (Action.close (hall x hx)).insert_mem hm
    exact ⟨he, hjob⟩

theorem Lawful.txn (hc : Lawful P c) (h : Txn P c l) (p : Pid) : Lawful P (c.commit p l) :=
  h.induct (R := Lawful P) (fun _ _ hc ha => hc.step (.act p ha)) hc

end CloudJob
