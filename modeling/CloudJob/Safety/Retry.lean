import CloudJob.Lifecycle.Keys
import CloudJob.Safety.Cancellation

/-!
# `Safety/Retry.lean` — how long a retry waits

`_schedule_retry` queues the job at once and writes the delay into the outbox event only: the next
message for the job is not published before it. But a claim looks at the status of the row and not
at the event of its message, so any other message for the job that is still around is as good: a
duplicate, a redelivery of one that was handled already, or the message of an older event. And where
an older event is still unpublished, `create_dispatch_event_if_absent` leaves it as it is, and the
delay is written nowhere.

In a run in which neither happens (`honoursRetries`) the delay is kept. The event of the retry stays
pending until its time has come, no other event of the job is inserted before that, and every claim
after the retry is made on one that was. -/

set_option autoImplicit false

namespace CloudJob

open Lib

variable {P : Params} {w w' : World (machine P)} {j : Uuid}

/-! ## The condition -/

/-- The entry queues job `j` again. -/
def Entry.requeues (j : Uuid) (en : Entry) : Bool :=
  match en.event with
  | .stmt (.updateJob k (.requeueRunning _ _ _)) => k == j
  | _ => false

/-- The entry is a retry of job `j`: a worker queues it again, and not the recovery, which waits for
nothing. -/
def Shared.retries (s : Shared) (j : Uuid) (en : Entry) : Bool :=
  en.requeues j && (s.handling en.pid).isSome

/-- The entry inserts event `e`, a dispatch of job `j`. -/
def Entry.dispatches (e j : Uuid) (en : Entry) : Bool :=
  match en.event with
  | .stmt (.insertEvent ev) => ev.id == e && ev.aggregateId == j
  | _ => false

/-- Event `e` was inserted for job `j` after the last retry of the job. -/
def Shared.dispatchedSince (s : Shared) (j e : Uuid) : Bool :=
  !s.core.history.any (s.retries j) ||
    (s.core.history.takeWhile fun en => !s.retries j en).any (Entry.dispatches e j)

/-- A claim is made on an event that was inserted since the last retry, and a retry finds no event
of its job unpublished. -/
def Stmt.honoursRetry (s : Shared) (p : Pid) : Stmt → Bool
  | .updateJob j (.markRunning _ _ _ _) => match (s.handling p).map Message.body with
    | some (.dispatch d) => s.dispatchedSince j d.eventId
    | _ => true
  | .updateJob j (.requeueRunning _ _ _) =>
      (s.handling p).isNone || (s.core.db.pendingDispatch j).isNone
  | _ => true

def honoursRetries (w : World (machine P)) : Move (machine P) → Bool
  | .run _ (.fails _) => true
  | .run p _ => match w.procs p with
    | some (_, .call .commit _) => (w.shared.staged p).all (Stmt.honoursRetry w.shared p)
    | _ => true
  | _ => true

/-- A statement that such a step commits meets the condition. -/
theorem Reachable.honoured (h : Reachable P w) {mv : Move (machine P)}
    (hok : honoursRetries w mv = true) (hs : (machine P).step mv w = some w') {l : List Entry}
    (hl : w'.shared.core.history = l ++ w.shared.core.history) {en : Entry}
    (hen : en ∈ l) {st : Stmt}
    (hev : en.event = .stmt st) : st.honoursRetry w.shared en.pid = true := by
  obtain ⟨ch, op, k, rfl, hp, -, -, hmem, -⟩ := h.new_stmt hs hl hen hev
  cases ch with
  | fails text =>
    rw [step_fails hs, List.self_eq_append_left] at hl
    rw [hl] at hen
    cases hen
  | _ =>
    simp only [honoursRetries, hp] at hok
    exact List.all_eq_true.mp hok st hmem

/-! ## The retry -/

/-- How many claims of job `j` a history has. -/
def attemptsIn (history : List Entry) (j : Uuid) : Nat :=
  (history.filterMap Entry.jobStmt).countP fun x => x.1 == j && x.2.issues.isSome

/-- The entry `en` of the history is a `_schedule_retry` of job `j` at time `t`, whose attempt has
the backoff `delay`. -/
structure RetryAt (s : Shared) (j : Uuid) (t : Datetime) (delay : Nat)
    (newer : List Entry) (en : Entry) (older : List Entry) : Prop where
  history : s.core.history = newer ++ en :: older
  worker : (s.handling en.pid).isSome = true
  update : ∃ token error, en.event = .stmt (.updateJob j (.requeueRunning token t error))
  backoff : RETRY_BACKOFF_SECONDS_BY_ATTEMPT.lookup (attemptsIn older j) = some delay

/-- What follows a retry of job `j` until the time `due`, and after: no claim of it before that
time, no other event for it, and as long as the time has not come an event that waits for it. -/
structure Waits (s : Shared) (j : Uuid) (due : Datetime) (newer : List Entry) : Prop where
  claims : ∀ en ∈ newer, ∀ workerId token now lease,
    en.event = .stmt (.updateJob j (.markRunning workerId token now lease)) → due ≤ now
  events : ∀ en ∈ newer, ∀ ev, en.event = .stmt (.insertEvent ev) → ev.aggregateId = j →
    due ≤ ev.availableAt ∨ due ≤ en.clock
  waiting : due ≤ s.core.clock ∨ ∃ en ∈ newer, ∃ ev, en.event = .stmt (.insertEvent ev) ∧
    due ≤ ev.availableAt ∧ s.core.db.Pending j ev.id

theorem RetryAt.retries {s : Shared} {t : Datetime} {delay : Nat}
    {newer older : List Entry} {en : Entry}
    (h : RetryAt s j t delay newer en older) : s.retries j en = true := by
  obtain ⟨token, error, hev⟩ := h.update
  simp [Shared.retries, Entry.requeues, hev, h.worker]

/-- What was inserted since the last retry was inserted since this one. -/
theorem dispatched_mem {s : Shared} {t : Datetime} {delay : Nat}
    {newer older : List Entry} {en : Entry} {e : Uuid} (h : RetryAt s j t delay newer en older)
    (hsince : s.dispatchedSince j e = true) :
    ∃ en' ∈ newer, ∃ ev, en'.event = .stmt (.insertEvent ev) ∧ ev.id = e ∧ ev.aggregateId = j := by
  have hany : s.core.history.any (s.retries j) = true := by
    rw [h.history]
    simp [h.retries]
  simp only [Shared.dispatchedSince, hany, Bool.not_true, Bool.false_or, List.any_eq_true] at hsince
  obtain ⟨en', hen', hd⟩ := hsince
  refine ⟨en', ?_, ?_⟩
  · rw [h.history, List.takeWhile_append] at hen'
    split at hen'
    · simpa [h.retries] using hen'
    · exact (List.takeWhile_sublist _).subset hen'
  · cases hev : en'.event with
    | stmt st =>
      cases st with
      | insertEvent ev =>
        simp only [Entry.dispatches, hev, Bool.and_eq_true, beq_iff_eq] at hd
        exact ⟨ev, rfl, hd⟩
      | _ => simp [Entry.dispatches, hev] at hd
    | _ => simp [Entry.dispatches, hev] at hd

/-- With one clock, an event that was due when `now` was read was inserted, and inserted for a time,
not after `now`. -/
theorem Core.WasDueAt.le (hclock : ∀ t r, P.reads t r = true → r = t) {c : Core} {e : Uuid}
    {now : Datetime} (h : c.WasDueAt P e now) :
    ∃ en ∈ c.history, ∃ ev, en.event = .stmt (.insertEvent ev) ∧
      ev.id = e ∧ ev.availableAt ≤ now ∧ en.clock ≤ now := by
  obtain ⟨en, hen, ev, r, t, t', hev, hid, hle, hr, htt, hclk, hnow⟩ := h
  rw [hclock t' now hnow]
  rw [hclock t r hr] at hle
  exact ⟨en, hen, ev, hev, hid, hle.trans htt, hclk⟩

theorem Core.WasDue.le (hclock : ∀ t r, P.reads t r = true → r = t) {c : Core} {e : Uuid}
    (h : c.WasDue P e) : ∃ en ∈ c.history, ∃ ev, en.event = .stmt (.insertEvent ev) ∧
      ev.id = e ∧ ev.availableAt ≤ c.clock := by
  obtain ⟨ev, r, ⟨en, hen, hev⟩, hid, hle, t, ht, hr⟩ := h
  rw [hclock t r hr] at hle
  exact ⟨en, hen, ev, hev, hid, hle.trans ht⟩

section Step

variable (hclock : ∀ t r, P.reads t r = true → r = t) {t : Datetime} {delay : Nat}
  {newer older l : List Entry} {en : Entry} {due : Datetime}

include hclock

/-- An old retry: a claim that is committed now is made on an event of the time after it. -/
theorem Waits.claim (h : Reachable P w) (hw : Waits w.shared j due newer)
    (hretry : RetryAt w.shared j t delay newer en older) {p : Pid} {workerId : String}
    {token : Uuid} {now lease : Datetime}
    (hmem : .updateJob j (.markRunning workerId token now lease) ∈ w.shared.staged p)
    (hok : (Stmt.updateJob j (.markRunning workerId token now lease)).honoursRetry
      w.shared p = true) :
    due ≤ now := by
  obtain ⟨settings, workerId', m, d, hcall, hbody, -, hdue⟩ := (h.inv.staged hmem).entitled
  have hhandling : w.shared.handling p = some m := by rw [Shared.handling, hcall]
  simp only [Stmt.honoursRetry, hhandling, Option.map_some, hbody] at hok
  obtain ⟨en₁, hen₁, ev₁, hev₁, hid₁, hagg₁⟩ := dispatched_mem hretry hok
  obtain ⟨en₂, hen₂, ev₂, hev₂, hid₂, havail, hclk⟩ := hdue.le hclock
  have hin : en₁ ∈ w.shared.core.history := hretry.history ▸ List.mem_append_left _ hen₁
  obtain rfl := h.lawful.eventsOnce.once en₁ hin en₂ hen₂ ev₁ ev₂ hev₁ hev₂ (hid₁.trans hid₂.symm)
  obtain rfl : ev₁ = ev₂ := by
    rw [hev₁] at hev₂
    cases hev₂
    rfl
  rcases hw.events en₁ hen₁ ev₁ hev₁ hagg₁ with hle | hle
  · exact hle.trans havail
  · exact hle.trans hclk

/-- The event that waits is published when its time has come. -/
theorem Waits.published (h : Reachable P w) {e : Uuid} {ev : OutboxEvent}
    (hin : en ∈ w.shared.core.history)
    (hev : en.event = .stmt (.insertEvent ev)) (hid : ev.id = e)
    (hdue : due ≤ ev.availableAt) {p : Pid}
    {now : Datetime} (hmem : .updateEvent e (.markPublished now) ∈ w.shared.staged p) :
    due ≤ w.shared.core.clock := by
  have hwas : w.shared.core.WasDue P e := (h.inv.staged hmem).entitled
  obtain ⟨en', hen', ev', hev', hid', hle⟩ := hwas.le hclock
  obtain rfl := h.lawful.eventsOnce.once en hin en' hen' ev ev' hev hev' (hid.trans hid'.symm)
  rw [hev] at hev'
  cases hev'
  exact hdue.trans hle

/-- **A step after a retry.** -/
theorem Waits.step (h : Reachable P w) (hw : Waits w.shared j due newer)
    (hretry : RetryAt w.shared j t delay newer en older) {mv : Move (machine P)}
    (hok : honoursRetries w mv = true) (hs : (machine P).step mv w = some w')
    (hl : w'.shared.core.history = l ++ w.shared.core.history) :
    Waits w'.shared j due (l ++ newer) where
  claims en' hen' workerId token now lease hev := by
    rcases List.mem_append.mp hen' with hen' | hen'
    · obtain ⟨ch, op, k, rfl, -, -, -, hmem, -⟩ := h.new_stmt hs hl hen' hev
      exact hw.claim hclock h hretry hmem (h.honoured hok hs hl hen' hev)
    · exact hw.claims en' hen' workerId token now lease hev
  events en' hen' ev hev hagg := by
    rcases List.mem_append.mp hen' with hen' | hen'
    · obtain ⟨ch, op, k, rfl, -, hclk, htxn, hmem, -⟩ := h.new_stmt hs hl hen' hev
      rcases hw.waiting with hle | ⟨_, -, ev', -, -, hpending⟩
      · exact .inr (hclk ▸ hle)
      · -- an event of the job is pending: no other is inserted
        rcases (htxn.insert_mem hmem).2 with hnone | hno
        · obtain ⟨evr, hevr, hp⟩ := hpending
          have hsome := h.lawful.wellFormed.aggregate hevr
          simp only [OutboxEvent.isPendingDispatch, Bool.and_eq_true, beq_iff_eq] at hp
          rw [hp.1.1, ← hagg, hnone] at hsome
          cases hsome
        · exact absurd hpending (hagg ▸ hno ev'.id)
    · exact hw.events en' hen' ev hev hagg
  waiting := by
    have hclk : w.shared.core.clock ≤ w'.shared.core.clock := (h.extends hs).clock
    rcases hw.waiting with hle | ⟨en', hen', ev, hev, hle, hpending⟩
    · exact .inl (hle.trans hclk)
    · have hstays : w'.shared.core.db.Pending j ev.id → due ≤ w'.shared.core.clock ∨
        ∃ en ∈ l ++ newer,
          ∃ ev, en.event = .stmt (.insertEvent ev) ∧ due ≤ ev.availableAt ∧
            w'.shared.core.db.Pending j ev.id :=
        fun hp => .inr ⟨en', List.mem_append_right _ hen', ev, hev, hle, hp⟩
      rcases h.commits hs with hq | ⟨p, ch, op, k, rfl, -, htxn, hdb, -⟩
      · refine hstays ?_
        unfold Db.Pending Db.event
        rw [hq.outbox]
        exact hpending
      · by_cases hpub : ∃ now, .updateEvent ev.id (.markPublished now) ∈ w.shared.staged p
        · obtain ⟨now, hmem⟩ := hpub
          have hin : en' ∈ w.shared.core.history := hretry.history ▸ List.mem_append_left _ hen'
          exact .inl ((Waits.published hclock h hin hev rfl hle hmem).trans hclk)
        · refine hstays ?_
          rw [hdb]
          exact pending_applyAll_stays hpending fun now hmem => hpub ⟨now, hmem⟩

end Step

/-- A retry that a step commits finds no event of the job, and inserts the one that waits. -/
theorem Waits.retried {p : Pid} {token : Uuid} {t : Datetime} {error : String} {delay : Nat}
    {ev : List Stmt} {log : JobLog}
    (hr : Redispatch w.shared.core j (t + seconds delay) ev)
    (hno : ∀ e, ¬ w.shared.core.db.Pending j e)
    (hdb : w'.shared.core.db = w.shared.core.db.applyAll
      (.updateJob j (.requeueRunning token t error) :: (ev ++ [.insertLog log]))) :
    Waits w'.shared j (t + seconds delay)
      ((((ev ++ [Stmt.insertLog log]).map Event.stmt).map
        (Entry.mk p w.shared.core.clock)).reverse) := by
  cases hr with
  | existing he => exact absurd he (hno _)
  | @new e t' _ he =>
    have hentry : ∀ en ∈ (((([Stmt.insertEvent (newDispatchEvent e j t' (t + seconds delay))] ++
        [Stmt.insertLog log]).map Event.stmt).map (Entry.mk p w.shared.core.clock)).reverse),
        en.event = .stmt (.insertEvent (newDispatchEvent e j t' (t + seconds delay))) ∨
        en.event = .stmt (.insertLog log) := by
      intro en hen
      rw [List.mem_reverse, List.map_map] at hen
      simp only [List.singleton_append, List.map_cons, List.map_nil, List.mem_cons,
        List.not_mem_nil, or_false, Function.comp_apply] at hen
      rcases hen.symm with rfl | rfl
      · exact .inr rfl
      · exact .inl rfl
    refine ⟨fun en hen workerId token now lease hev => ?_, fun en hen ev hev _ => ?_, .inr ?_⟩
    · rcases hentry en hen with heq | heq <;> rw [heq] at hev <;> cases hev
    · rcases hentry en hen with heq | heq
      · rw [heq] at hev
        cases hev
        exact .inl le_rfl
      · rw [heq] at hev
        cases hev
    · refine ⟨⟨p, w.shared.core.clock, .stmt (.insertEvent
        (newDispatchEvent e j t' (t + seconds delay)))⟩,
        by simp, _, rfl, le_rfl, ?_⟩
      rw [hdb]
      have hfresh : (Stmt.apply w.shared.core.db
        (.updateJob j (.requeueRunning token t error))).event
          (newDispatchEvent e j t' (t + seconds delay)).id = none := he
      exact (pending_insertEvent hfresh j).mpr
        (.inr ⟨rfl, by simp [newDispatchEvent, OutboxEvent.isPendingDispatch]⟩)

/-- An entry in the history after a step, with what is older: it was there, or the step committed
it. -/
theorem split_history {newer older l H : List Entry} {en : Entry}
    (h : newer ++ en :: older = l ++ H) :
    (∃ newer', newer = l ++ newer' ∧ H = newer' ++ en :: older) ∨
    ∃ l', l = newer ++ en :: l' ∧ older = l' ++ H := by
  rcases List.append_eq_append_iff.mp h with ⟨as, hl, hrest⟩ | ⟨bs, hnewer, hH⟩
  · cases as with
    | nil => exact .inl ⟨[], by simpa using hl.symm, by simpa using hrest.symm⟩
    | cons x l' =>
      rw [List.cons_append, List.cons.injEq] at hrest
      obtain ⟨rfl, rfl⟩ := hrest
      exact .inr ⟨l', hl, rfl⟩
  · exact .inl ⟨bs, hnewer, hH⟩

/-- In a run that honours retries, every retry is waited for. -/
theorem waits_of_retryAt (hclock : ∀ t r, P.reads t r = true → r = t)
    (h : (machine P).ReachBy (fun w mv => honoursRetries w mv = true) (World.init P) w) :
    ∀ j t delay newer en older, RetryAt w.shared j t delay newer en older →
      Waits w.shared j (t + seconds delay) newer := by
  refine (h.invariant (I := fun w => Reachable P w ∧ ∀ j t delay newer en older,
    RetryAt w.shared j t delay newer en older → Waits w.shared j (t + seconds delay) newer)
    ⟨.refl, fun j t delay newer en older hr => ?_⟩ fun w₁ w₂ mv hi hok hs => ⟨hi.1.step hs, ?_⟩).2
  · have hnil : [] = newer ++ en :: older := hr.history
    simp at hnil
  intro j t delay newer en older hr
  obtain ⟨l, hl, hpid⟩ := step_history hs
  rcases split_history (hr.history.symm.trans hl) with ⟨newer', rfl, hold⟩ | ⟨l', rfl, rfl⟩
  · -- an old retry: its process was a worker already
    have hworker : (w₁.shared.handling en.pid).isSome = true := by
      have hin : en ∈ w₁.shared.core.history := by
        rw [hold]
        exact List.mem_append_right _ List.mem_cons_self
      obtain ⟨op, hop⟩ := Option.ne_none_iff_exists'.mp (hi.1.entry_calls en hin)
      have hw := hr.worker
      rw [Shared.handling, hi.1.calls_stay hs hop] at hw
      rwa [Shared.handling, hop]
    have hr₁ : RetryAt w₁.shared j t delay newer' en older := ⟨hold, hworker, hr.update, hr.backoff⟩
    exact (hi.2 j t delay newer' en older hr₁).step hclock hi.1 hr₁ hok hs hl
  · -- the step commits it, and everything newer is in the same transaction
    obtain ⟨token, error, hev⟩ := hr.update
    have hen : en ∈ newer ++ en :: l' := List.mem_append_right _ List.mem_cons_self
    obtain ⟨ch, op, k, rfl, hp, -, -, hmem, hdb, hentries⟩ := hi.1.new_stmt hs hl hen hev
    have hworker : (w₁.shared.handling en.pid).isSome = true := by
      have hw := hr.worker
      rcases step_calls hs with ⟨_, _, hmv, -⟩ | ⟨-, hcalls⟩
      · cases hmv
      · rwa [Shared.handling, hcalls] at hw
    obtain ⟨row, delay', ev, log, hrow, hlookup, hred, hstaged⟩ :=
      (hi.1.pre hp).2.2 hworker j token t error hmem
    have hno : ∀ e, ¬ w₁.shared.core.db.Pending j e := by
      have hhon := hi.1.honoured hok hs hl hen hev
      simp only [Stmt.honoursRetry, Bool.or_eq_true, Option.isNone_iff_eq_none] at hhon
      rcases hhon with hnone | hnone
      · rw [hnone] at hworker
        cases hworker
      · exact Db.pendingDispatch_eq_none.mp hnone
    rw [hstaged] at hdb hentries
    rw [List.map_cons, List.map_cons, List.reverse_cons] at hentries
    have hrest : (ev ++ [Stmt.insertLog log]).filterMap Stmt.jobStmt = [] := by
      rw [List.filterMap_append, (hred.jobs w₁.shared.core.db).2]
      rfl
    rcases split_history hentries with ⟨newer', rfl, hone⟩ | ⟨l'', hbefore, -⟩
    · obtain ⟨rfl, -, rfl⟩ : newer' = [] ∧ en = ⟨en.pid, w₁.shared.core.clock,
          .stmt (.updateJob j (.requeueRunning token t error))⟩ ∧ l' = [] := by
        cases newer' with
        | nil =>
          rw [List.nil_append, List.cons.injEq] at hone
          exact ⟨rfl, hone.1.symm, hone.2.symm⟩
        | cons x xs => simp at hone
      have hback := hr.backoff
      rw [List.nil_append,
        show attemptsIn w₁.shared.core.history j = w₁.shared.core.runs j from rfl, ← hi.1.lawful.attemptCount_eq_runs hrow, hlookup] at hback
      cases hback
      rw [List.append_nil]
      exact Waits.retried hred hno hdb
    · -- the retry is the first statement of its transaction, and the only one about a job
      have hin : en ∈ (((ev ++ [Stmt.insertLog log]).map Event.stmt).map
          (Entry.mk en.pid w₁.shared.core.clock)).reverse := by
        rw [hbefore]
        exact List.mem_append_right _ List.mem_cons_self
      rw [List.mem_reverse, List.map_map] at hin
      obtain ⟨st, hst, heq⟩ := List.mem_map.mp hin
      rw [← heq] at hev
      cases hev
      exact absurd hst (update_not_mem hrest)

/-- **A retry waits for its delay**, in every run that honours retries: a claim that is committed
after a `_schedule_retry` at time `t`, of an attempt with the backoff `delay`, has read a time that
is not before `t + delay`. -/
theorem retry_delay_honoured (hclock : ∀ t r, P.reads t r = true → r = t)
    (h : (machine P).ReachBy (fun w mv => honoursRetries w mv = true) (World.init P) w)
    {t : Datetime} {delay : Nat} {newer older : List Entry} {en : Entry}
    (hretry : RetryAt w.shared j t delay newer en older) :
    ∀ en' ∈ newer, ∀ workerId token now lease,
      en'.event = .stmt (.updateJob j (.markRunning workerId token now lease)) →
      t + seconds delay ≤ now :=
  (waits_of_retryAt hclock h j t delay newer en older hretry).claims

theorem RetryAt.of_index {s : Shared} {i delay : Nat} {en : Entry} {token : Uuid} {t : Datetime}
    {error : String} (hget : s.core.history[i]? = some en)
    (hworker : (s.handling en.pid).isSome = true)
    (hst : en.jobStmt = some (j, .requeueRunning token t error))
    (hback : RETRY_BACKOFF_SECONDS_BY_ATTEMPT.lookup (attemptsIn (s.core.history.drop (i + 1)) j) =
      some delay) :
    RetryAt s j t delay (s.core.history.take i) en (s.core.history.drop (i + 1)) where
  history := by
    obtain ⟨hlt, rfl⟩ := List.getElem?_eq_some_iff.mp hget
    rw [← List.drop_eq_getElem_cons hlt, List.take_append_drop]
  worker := hworker
  update := ⟨token, error, Entry.event_of_jobStmt hst⟩
  backoff := hback

/-- In the run below the first attempt fails at time 0, and the job is claimed again after five
seconds, on the message of the event that its retry inserted. -/
theorem retry_delay_honoured_once : ∃ (w : World (machine .default)) (newer older :
    List Entry) (en : Entry), RetryAt w.shared 10 0 5 newer en older ∧
    (10, .markRunning "w" 21 (seconds 5) (seconds 65)) ∈ newer.filterMap Entry.jobStmt ∧
    ∀ en' ∈ newer, ∀ workerId token now lease,
      en'.event = .stmt (.updateJob 10 (.markRunning workerId token now lease)) →
      0 + seconds 5 ≤ now := by
  have hrun : (((machine .default).runIf honoursRetries (claimedFailureMoves ++ retryMoves 2 12 0 ++
      [.env (.tick 5000000)] ++ republishMoves 4 (seconds 5) ++
      claimMoves 5 ⟨1, .dispatch ⟨12, 10, 0⟩⟩ 21 (seconds 5)) (World.init .default)).bind fun w =>
        (w.shared.core.history[9]?).map fun en => (en.jobStmt, (w.shared.handling en.pid).isSome,
          attemptsIn (w.shared.core.history.drop 10) 10,
          decide ((10, JobStmt.markRunning "w" 21 (seconds 5) (seconds 65)) ∈
            (w.shared.core.history.take 9).filterMap Entry.jobStmt))) =
      some (some (10, .requeueRunning 20 0 "Failure handler requested job failure"), true,
          1, true) := by
    decide +kernel
  simp only [Option.bind_eq_some_iff, Option.map_eq_some_iff, Prod.mk.injEq,
    decide_eq_true_eq] at hrun
  obtain ⟨w, hw, en, hget, hst, hworker, hone, hclaim⟩ := hrun
  have hretry : RetryAt w.shared 10 0 5 _ en _ := .of_index hget hworker hst (by rw [hone]; rfl)
  refine ⟨w, _, _, en, hretry, hclaim, retry_delay_honoured (fun t r hr => ?_)
    (.of_runIf (fun _ _ ht => ht) hw) hretry⟩
  simpa [Params.default] using hr

/-- In this one the broker has duplicated the first message. The first attempt fails at time 0, and
the copy is delivered at once: the job is claimed again at time 0, five seconds early. -/
theorem retry_claimed_early : ∃ (w : World (machine .default)) (newer older :
    List Entry) (en : Entry), Reachable .default w ∧ RetryAt w.shared 10 0 5 newer en older ∧
    ∃ en' ∈ newer, ∃ workerId token now lease,
      en'.event = .stmt (.updateJob 10 (.markRunning workerId token now lease)) ∧
      now < 0 + seconds 5 := by
  have hrun : (((machine .default).run ([.env (.register 1)] ++ createMoves 0 1 10 11
    "k" .failure 0 ++
      publishMoves 1 0 ++ [.env (.duplicate ⟨0, .dispatch ⟨11, 10, 0⟩⟩)] ++
      claimMoves 2 ⟨0, .dispatch ⟨11, 10, 0⟩⟩ 20 0 ++ retryMoves 2 12 0 ++
      claimMoves 5 ⟨1, .dispatch ⟨11, 10, 0⟩⟩ 21 0) (World.init .default)).bind fun w =>
        (w.shared.core.history[8]?).map fun en => (en.jobStmt, (w.shared.handling en.pid).isSome,
          attemptsIn (w.shared.core.history.drop 9) 10,
          decide ((10, JobStmt.markRunning "w" 21 0 (seconds 60)) ∈
            (w.shared.core.history.take 8).filterMap Entry.jobStmt))) =
      some (some (10, .requeueRunning 20 0 "Failure handler requested job failure"), true,
          1, true) := by
    decide +kernel
  simp only [Option.bind_eq_some_iff, Option.map_eq_some_iff, Prod.mk.injEq,
    decide_eq_true_eq] at hrun
  obtain ⟨w, hw, en, hget, hst, hworker, hone, hclaim⟩ := hrun
  obtain ⟨en', hen', hst'⟩ := List.mem_filterMap.mp hclaim
  exact ⟨w, _, _, en, .of_run hw, .of_index hget hworker hst (by rw [hone]; rfl), en',
    hen', "w", 21, 0,
    seconds 60, Entry.event_of_jobStmt hst', by decide⟩

end CloudJob
