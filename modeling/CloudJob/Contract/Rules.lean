import CloudJob.Contract.Held
import CloudJob.Uow

/-!
# `Contract/Rules.lean` — a rule for each call

Each rule takes what is `Held` before the call to what is `Held` after it, once for every way the
call can go; all failures of an outside system are one case, in which nothing has changed. A rule
that takes a lock restarts from the present (`Held.rebase`), because what the new lock protects is
only known from there on. -/

set_option autoImplicit false

namespace CloudJob

open Lib

variable {P : Params} {p : Pid} {g : Ghost} {c : Core} {s s' : Shared} {β : Type}
  {Q : Except Exc β → Shared → Prop}

/-- Calls that are answered, or fail without effect. -/
def Op.isPlain : Op → Bool
  | .now | .uuid4 | .reserve _ | .commit | .publishDispatch _ | .rollback | .aexit _ => false
  | _ => true

theorem exec_plain {reads : Datetime → Datetime → Bool} {o : Op} {ch : Choice}
    {r : Except Exc o.Ret} (ho : o.isPlain = true) (h : s.exec reads p o ch = some (r, s')) :
    s.answer p o = some (r, s') ∨ ∃ e, e.isExternal = true ∧ r = .error e ∧ s' = s := by
  cases ch with
  | answer => exact .inl h
  | fails text =>
    simp only [Shared.exec, Option.map_eq_some_iff, Prod.mk.injEq] at h
    obtain ⟨e, he, rfl, rfl⟩ := h
    cases o <;> first | (cases ho; done) | (cases he; done) |
      (cases he; exact .inr ⟨_, rfl, rfl, rfl⟩)
  | failsAfter text => cases o <;> first | (cases ho; done) | cases h
  | time t => cases o <;> first | (cases ho; done) | cases h
  | uuid u => cases o <;> first | (cases ho; done) | cases h
  | reservation r => cases o <;> first | (cases ho; done) | cases h

/-- A plain call. -/
theorem Held.plain {o : Op} {f : o.Ret → Code β} (ho : o.isPlain = true) (h : Held P p g c s)
    (hpre : ∀ s', Inv P s' → Held P p g c s' → Pre P p o s')
    (hans : ∀ s' r s'', Inv P s' → Held P p g c s' → Inv P s'' → s'.answer p o = some (r, s'') →
      match r with
      | .ok a => (contract P).Safe p (f a) Q s''
      | .error e => (contract P).Safe p (.raise e) Q s'')
    (herr : ∀ e s', e.isExternal = true → Inv P s' → Held P p g c s' → Q (.error e) s') :
    (contract P).Safe p ((call o).bind f) Q s := by
  refine h.perform hpre fun s' ch r s'' hi hh hi' he => ?_
  rcases exec_plain ho he with hans' | ⟨e, hext, rfl, rfl⟩
  · exact hans s' r s'' hi hh hi' hans'
  · exact hh.raise fun s₁ hi₁ hh₁ => herr e s₁ hext hi₁ hh₁

/-! ## Clock, uuids, units of work -/

/-- A reading, taken no earlier than what is known. -/
theorem Held.nowSince {f : Datetime → Code β} (h : Held P p g c s)
    (hok : ∀ t s', (∃ t₀, c.clock ≤ t₀ ∧ P.reads t₀ t = true) →
      Held P p { g with readings := t :: g.readings } c s' → (contract P).Safe p (f t) Q s') :
    (contract P).Safe p ((call .now).bind f) Q s := by
  refine h.perform (fun _ _ _ => trivial) fun s' ch r s'' hi hh _ he => ?_
  cases ch with
  | time t =>
    simp only [Shared.exec] at he
    split at he
    · rename_i hreads
      cases he
      refine hok t s' ⟨_, hh.keeps.clock, hreads⟩
        ⟨hh.origin, hh.called, hh.locks, hh.staged, ?_, hh.own, hh.keeps⟩
      intro t' ht'
      rcases List.mem_cons.mp ht' with rfl | ht'
      · exact ⟨s'.core.clock, le_rfl, hreads⟩
      · exact hh.reads t' ht'
    · cases he
  | _ => cases he

theorem Held.now {f : Datetime → Code β} (h : Held P p g c s)
    (hok : ∀ t s', Held P p { g with readings := t :: g.readings } c s' →
      (contract P).Safe p (f t) Q s') :
    (contract P).Safe p ((call .now).bind f) Q s :=
  h.nowSince fun t s' _ hh => hok t s' hh

/-- A uuid nobody has used. -/
structure Fresh (u : Uuid) (c : Core) : Prop where
  event : c.db.event u = none
  issued : c.issued u = 0
  started : c.startedAs u = 0

theorem Core.Extends.fresh {c c' : Core} {u : Uuid} (h : c.Extends c') (hf : Fresh u c') :
    Fresh u c := by
  obtain ⟨new, hnew⟩ := h.history
  refine ⟨?_, ?_, ?_⟩
  · cases he : c.db.event u with
    | none => rfl
    | some ev =>
      obtain ⟨ev', he', -⟩ := h.events he
      rw [hf.event] at he'
      cases he'
  · have hi := hf.issued
    rw [Core.issued, Core.committed, ← hnew, List.filterMap_append, List.countP_append] at hi
    exact Nat.eq_zero_of_add_eq_zero_left hi
  · have hi := hf.started
    rw [Core.startedAs, ← hnew, List.countP_append] at hi
    exact Nat.eq_zero_of_add_eq_zero_left hi

/-- A token that was never issued was never started. -/
theorem Lawful.startedAs_of_issued (h : Lawful P c) {u : Uuid} (hu : c.issued u = 0) :
    c.startedAs u = 0 := by
  refine List.countP_eq_zero.mpr fun en hen hs => ?_
  obtain ⟨pid, clock, ev⟩ := en
  cases ev with
  | handlerStarted j token =>
    simp only [Entry.startsAs, beq_iff_eq] at hs
    subst hs
    have hmem : token ∈ c.startedTokens j :=
      List.mem_filterMap.mpr ⟨_, hen, by simp [Entry.startedToken]⟩
    obtain ⟨x, hx, hxi⟩ := List.mem_filterMap.mp ((h.startedTokens j).2 hmem)
    refine List.countP_eq_zero.mp hu x hx ?_
    simp only [Option.ite_none_right_eq_some] at hxi
    simp [hxi.2]
  | _ => cases hs

theorem Inv.fresh (hi : Inv P s) {u : Uuid} (hu : s.uuidOwner u = none) : Fresh u s.core :=
  ⟨hi.events hu, hi.tokens hu, hi.lawful.startedAs_of_issued (hi.tokens hu)⟩

theorem OwnKept.of_fresh {c c' : Core} {u : Uuid} (hlaw : Lawful P c') (hf : Fresh u c)
    (hf' : Fresh u c') : OwnKept u c c' := by
  refine ⟨fun _ => hf'.event, hf'.issued.trans hf.issued.symm,
    hf'.started.trans hf.started.symm, ?_⟩
  intro j row' hrow' ht
  have hone := (hlaw.token_open hrow' ht).1
  rw [hf'.issued] at hone
  cases hone

theorem Fresh.keep {c c' : Core} {u : Uuid} (h : Fresh u c) (hk : OwnKept u c c') : Fresh u c' :=
  ⟨hk.event h.event, hk.issued.trans h.issued, hk.started.trans h.started⟩

theorem Held.uuid4 {f : Uuid → Code β} (h : Held P p g c s)
    (hok : ∀ u s', Fresh u c → u ∉ g.own → Held P p { g with own := u :: g.own } c s' →
      (contract P).Safe p (f u) Q s') :
    (contract P).Safe p ((call .uuid4).bind f) Q s := by
  refine h.perform (fun _ _ _ => trivial) fun s' ch r s'' hi hh hi' he => ?_
  cases ch with
  | uuid u =>
    simp only [Shared.exec] at he
    split at he
    · rename_i hnone
      cases he
      have hf' := hi.fresh hnone
      have hf := hh.keeps.toExtends.fresh hf'
      refine hok u _ hf (fun hm => ?_) ?_
      · rw [(hh.own u hm).1] at hnone
        cases hnone
      · refine ⟨hh.origin, hh.called, hh.locks, hh.staged, hh.reads, fun v hv => ?_, hh.keeps⟩
        rcases List.mem_cons.mp hv with rfl | hmem
        · exact ⟨Function.update_self .., .of_fresh hi.lawful hf hf'⟩
        · refine ⟨?_, (hh.own v hmem).2⟩
          show Function.update s'.uuidOwner u (some p) v = some p
          rw [Function.update_of_ne]
          · exact (hh.own v hmem).1
          · rintro rfl
            rw [(hh.own v hmem).1] at hnone
            cases hnone
    · cases he
  | _ => cases he

theorem Held.aenter {f : Unit → Code β} (h : Held P p g c s) (hr : g.rows = [])
    (hst : g.staged = []) (hok : ∀ s', Held P p g c s' → (contract P).Safe p (f ()) Q s') :
    (contract P).Safe p ((call .aenter).bind f) Q s := by
  refine h.perform (fun s' _ hh => ⟨hh.staged.trans hst, hh.holdsNothing hr⟩)
    fun s' ch r s'' hi hh _ he => ?_
  cases ch with
  | answer => cases he; exact hok s' hh
  | fails text => cases he
  | _ => cases he

/-- What is left when the transaction is over. -/
theorem Held.release (h : Held P p g c s) : Held P p g.idle c (s.release p) where
  origin := h.origin
  called := h.called
  locks r := by
    refine ⟨fun hl => absurd hl (Shared.locks_release_self r), fun hm => ?_⟩
    cases hm
  staged := Shared.staged_release_self
  reads := h.reads
  own := h.own
  keeps := h.keeps.mono fun r hm => by cases hm

theorem Held.spend (h : Held P p g.idle c s) : Held P p g.idle c (s.spend p) := by
  rcases s.spend_cases p with hs | ⟨m, -, hs⟩
  · rw [hs]
    exact h
  · rw [hs]
    refine ⟨h.origin, h.called, h.locks, h.staged, h.reads, fun u hu => ?_, ?_⟩
    · exact ⟨(h.own u hu).1, (h.own u hu).2.trans (.of_sameTables (.spend _ _) rfl)⟩
    · refine h.keeps.trans (.of_sameTables (.spend _ _) fun hm => ?_)
      cases hm

theorem Shared.spent_spend {s : Shared} {m : Message} (h : s.handling p = some m) :
    m.id ∈ (s.spend p).core.spent := by
  rw [Shared.spend, h]
  exact List.mem_cons_self

/-- The message `p` handles, if it handles one, is spent. -/
def Spent (p : Pid) (s : Shared) : Prop := ∀ m, s.handling p = some m → m.id ∈ s.core.spent

theorem Shared.spend_spent (s : Shared) (p : Pid) : Spent p (s.spend p) := by
  intro m hm
  have hm' : s.handling p = some m := by
    rcases s.spend_cases p with hs | ⟨m', -, hs⟩
    · rwa [hs] at hm
    · rwa [hs] at hm
  exact Shared.spent_spend hm'

theorem Held.aexitTrue {f : Unit → Code β} (h : Held P p g c s)
    (hok : ∀ s', Held P p g.idle c s' → (contract P).Safe p (f ()) Q s')
    (herr : ∀ e s', e.isExternal = true → Inv P s' → Held P p g.idle c s' → Q (.error e) s') :
    (contract P).Safe p ((call (.aexit true)).bind f) Q s := by
  refine h.perform (fun _ _ _ => trivial) fun s' ch r s'' hi hh _ he => ?_
  cases ch with
  | answer => cases he; exact hok _ hh.release
  | fails text =>
    cases he
    exact hh.release.raise fun s₁ hi₁ hh₁ => herr _ s₁ rfl hi₁ hh₁
  | _ => cases he

theorem Held.aexitFalse {f : Unit → Code β} (h : Held P p g c s)
    (hspend : ∀ s', Inv P s' → Held P p g c s' → SpendOk s' p s'.core.db)
    (hok : ∀ s', Inv P s' → Spent p s' → Held P p g.idle c s' → (contract P).Safe p (f ()) Q s')
    (herr : ∀ e s', e.isExternal = true → Inv P s' → Held P p g.idle c s' → Q (.error e) s') :
    (contract P).Safe p ((call (.aexit false)).bind f) Q s := by
  refine h.perform (fun s' hi hh => hspend s' hi hh) fun s' ch r s'' hi hh hi' he => ?_
  cases ch with
  | answer => cases he; exact hok _ hi' (Shared.spend_spent _ p) hh.release.spend
  | fails text =>
    cases he
    exact hh.release.raise fun s₁ hi₁ hh₁ => herr _ s₁ rfl hi₁ hh₁
  | _ => cases he

theorem Held.rollback {f : Unit → Code β} (h : Held P p g c s)
    (hok : ∀ s', Held P p g.idle c s' → (contract P).Safe p (f ()) Q s')
    (herr : ∀ e s', e.isExternal = true → Inv P s' → Held P p g.idle c s' → Q (.error e) s') :
    (contract P).Safe p ((call .rollback).bind f) Q s := by
  refine h.perform (fun _ _ _ => trivial) fun s' ch r s'' hi hh _ he => ?_
  cases ch with
  | answer => cases he; exact hok _ hh.release
  | fails text =>
    cases he
    exact hh.release.raise fun s₁ hi₁ hh₁ => herr _ s₁ rfl hi₁ hh₁
  | _ => cases he

/-! ## Queries -/

theorem Held.selectJob {f : Option Job → Code β} {id : Uuid} {owner : Option Uuid}
    (h : Held P p g c s)
    (hok : ∀ s', Inv P s' → Held P p g c s' → (contract P).Safe p
      (f (((s'.core.db.applyAll g.staged).job id).filter fun j => owner.all (· == j.ownerId))) Q s')
    (herr : ∀ e s', e.isExternal = true → Inv P s' → Held P p g c s' → Q (.error e) s') :
    (contract P).Safe p ((call (.selectJob id owner)).bind f) Q s := by
  refine h.plain rfl (fun _ _ _ => trivial) (fun s' r s'' hi hh _ he => ?_) herr
  cases he
  rw [hh.view]
  exact hok s' hi hh

theorem Held.selectJobByKey {f : Option Job → Code β} {owner : Uuid} {key : String}
    (h : Held P p g c s)
    (hok : ∀ s', Inv P s' → Held P p g c s' → (contract P).Safe p
      (f ((s'.core.db.applyAll g.staged).jobByKey owner key)) Q s')
    (herr : ∀ e s', e.isExternal = true → Inv P s' → Held P p g c s' → Q (.error e) s') :
    (contract P).Safe p ((call (.selectJobByKey owner key)).bind f) Q s := by
  refine h.plain rfl (fun _ _ _ => trivial) (fun s' r s'' hi hh _ he => ?_) herr
  cases he
  rw [hh.view]
  exact hok s' hi hh

theorem Held.countRunning {f : Nat → Code β} {owner : Uuid} (h : Held P p g c s)
    (hok : ∀ s', Inv P s' → Held P p g c s' → (contract P).Safe p
      (f ((s'.core.db.applyAll g.staged).runningCount owner)) Q s')
    (herr : ∀ e s', e.isExternal = true → Inv P s' → Held P p g c s' → Q (.error e) s') :
    (contract P).Safe p ((call (.countRunning owner)).bind f) Q s := by
  refine h.plain rfl (fun _ _ _ => trivial) (fun s' r s'' hi hh _ he => ?_) herr
  cases he
  rw [hh.view]
  exact hok s' hi hh

theorem Held.selectPendingDispatch {f : Option Uuid → Code β} {j : Uuid} (h : Held P p g c s)
    (hok : ∀ s', Inv P s' → Held P p g c s' → (contract P).Safe p
      (f ((s'.core.db.applyAll g.staged).pendingDispatch j)) Q s')
    (herr : ∀ e s', e.isExternal = true → Inv P s' → Held P p g c s' → Q (.error e) s') :
    (contract P).Safe p ((call (.selectPendingDispatch j)).bind f) Q s := by
  refine h.plain rfl (fun _ _ _ => trivial) (fun s' r s'' hi hh _ he => ?_) herr
  cases he
  rw [hh.view]
  exact hok s' hi hh

/-! ## Locks -/

/-- After a lock: start over from the present, with the rows added. -/
theorem Held.lock (h : Held P p g c s) (hi : Inv P s) (rs : List LockRow) :
    Held P p { g with rows := rs ++ g.rows } s.core (s.lock p rs) where
  origin := hi.lawful
  called := h.called
  locks r := by
    rw [Shared.locks_lock_self, List.mem_append, h.locks]
  staged := h.staged
  reads := h.reads
  own u hu := ⟨(h.own u hu).1, .refl _ _⟩
  keeps := .refl _

theorem Held.selectJobForUpdate {f : Option Job → Code β} {id : Uuid} {owner : Option Uuid}
    (h : Held P p g c s)
    (hpre : (∀ r ∈ g.rows, ∃ e, r = .event e) ∨ ∀ r ∈ g.rows, ∃ o, r = .user o)
    (hrec : ∀ settings, g.call ≠ .recoverDueBatchOnce settings)
    (hfor : ∀ o, .user o ∈ g.rows → ∃ settings w m, g.call = .handleMessage settings w m ∧
      m.IsFor id)
    (hnone : ∀ s', Inv P s' → Held P p g c s' →
      ((s'.core.db.applyAll g.staged).job id).filter (fun j => owner.all (· == j.ownerId)) = none →
      (contract P).Safe p (f none) Q s')
    (hsome : ∀ c' row s', Keeps (· ∈ g.rows) c c' → (c'.db.applyAll g.staged).job id = some row →
      owner.all (· == row.ownerId) = true →
      Held P p { g with rows := [.job id] ++ g.rows } c' s' → (∀ u ∈ g.own, OwnKept u c c') →
      (contract P).Safe p (f (some row)) Q s')
    (herr : ∀ e s', e.isExternal = true → Inv P s' → Held P p g c s' → Q (.error e) s') :
    (contract P).Safe p ((call (.selectJobForUpdate id owner)).bind f) Q s := by
  refine h.plain rfl (fun s' _ hh => ?_) (fun s' r s'' hi hh _ he => ?_) herr
  · refine ⟨hpre.imp (fun hp r hl => hp r ((hh.locks r).mp hl))
      fun hp r hl => hp r ((hh.locks r).mp hl), fun settings hc => ?_, fun o hl => ?_⟩
    · exact hrec settings (Option.some.inj (hh.called.symm.trans hc))
    · obtain ⟨settings, w, m, hc, hm⟩ := hfor o ((hh.locks _).mp hl)
      exact ⟨m, hh.handles hc, hm⟩
  · simp only [Shared.answer, hh.view] at he
    split at he
    · rename_i hf
      cases he
      exact hnone s' hi hh hf
    · rename_i row hf
      split at he
      · cases he
        rw [Option.filter_eq_some_iff] at hf
        exact hsome s'.core row _ hh.keeps hf.1 hf.2 (hh.lock hi _) fun u hu => (hh.own u hu).2
      · cases he

theorem Held.lockUser {f : Bool → Code β} {id : Uuid} (h : Held P p g c s)
    (hpre : (g.rows = [] ∧ ∃ settings w m, g.call = .handleMessage settings w m) ∨
      ((∃ settings, g.call = .recoverDueBatchOnce settings) ∧
      ∃ j row, .job j ∈ g.rows ∧ c.db.job j = some row ∧ row.ownerId = id))
    (hfalse : ∀ s', Inv P s' → Held P p g c s' → id ∉ s'.core.db.users →
      (contract P).Safe p (f false) Q s')
    (htrue : ∀ c' s', Keeps (· ∈ g.rows) c c' → id ∈ c'.db.users →
      Held P p { g with rows := [.user id] ++ g.rows } c' s' → (∀ u ∈ g.own, OwnKept u c c') →
      (∀ t ∈ g.readings, P.ReadBy c'.clock t) → (contract P).Safe p (f true) Q s')
    (herr : ∀ e s', e.isExternal = true → Inv P s' → Held P p g c s' → Q (.error e) s') :
    (contract P).Safe p ((call (.lockUser id)).bind f) Q s := by
  refine h.plain rfl (fun s' _ hh => ?_) (fun s' r s'' hi hh _ he => ?_) herr
  · refine hpre.imp (fun ⟨hr, settings, w, m, hc⟩ =>
      ⟨hh.holdsNothing hr, by rw [hh.handles hc]; rfl⟩) ?_
    rintro ⟨⟨settings, hc⟩, j, row, hmem, hrow, ho⟩
    exact ⟨⟨settings, hh.called.trans (congrArg some hc)⟩, j, row, (hh.locks _).mpr hmem,
      (hh.keeps.job hmem).trans hrow, ho⟩
  · simp only [Shared.answer, hh.view, Db.users_applyAll] at he
    split at he
    · rename_i hmem
      split at he
      · cases he
        exact htrue s'.core _ hh.keeps hmem (hh.lock hi _) (fun u hu => (hh.own u hu).2) hh.reads
      · cases he
    · rename_i hmem
      cases he
      exact hfalse s' hi hh hmem

theorem Held.lockExpiredJobs {f : List Job → Code β} {now : Datetime} {limit : Nat}
    (h : Held P p g c s) (hr : g.rows = [])
    (hok : ∀ c' rows s', Keeps (· ∈ g.rows) c c' →
      rows.Sublist ((c'.db.applyAll g.staged).expiredRunning now) →
      Held P p { g with rows := rows.map (fun j => .job j.id) ++ g.rows } c' s' →
      (contract P).Safe p (f rows) Q s')
    (herr : ∀ e s', e.isExternal = true → Inv P s' → Held P p g c s' → Q (.error e) s') :
    (contract P).Safe p ((call (.lockExpiredJobs now limit)).bind f) Q s := by
  refine h.plain rfl (fun _ _ hh => hh.holdsNothing hr) (fun s' r s'' hi hh _ he => ?_) herr
  simp only [Shared.answer, hh.view] at he
  cases he
  exact hok s'.core _ _ hh.keeps ((List.take_sublist _ _).trans List.filter_sublist)
    (hh.lock hi _)

/-- What is listed as due was inserted for a time that has come. -/
theorem Inv.wasDue (hi : Inv P s) {now : Datetime} {ev : OutboxEvent}
    (hev : s.core.db.event ev.id = some ev) (hdue : ev.isDue now = true)
    (hnow : P.ReadBy s.core.clock now) : s.core.WasDue P ev.id := by
  rcases hi.available hev with hd | ⟨ev₀, hins, hid, hat⟩
  · exact hd
  · refine ⟨ev₀, now, hins, hid, ?_, hnow⟩
    simp only [OutboxEvent.isDue, Bool.and_eq_true, decide_eq_true_eq] at hdue
    exact hat ▸ hdue.2

theorem Held.lockDueEvents {f : List OutboxEvent → Code β} {now : Datetime} {limit : Nat}
    (h : Held P p g c s) (hst : g.staged = []) (hnow : now ∈ g.readings)
    (hok : ∀ c' rows s', (∀ ev ∈ rows, c'.WasDue P ev.id) →
      Held P p { g with rows := rows.map (fun ev => .event ev.id) ++ g.rows } c' s' →
      (contract P).Safe p (f rows) Q s')
    (herr : ∀ e s', e.isExternal = true → Inv P s' → Held P p g c s' → Q (.error e) s') :
    (contract P).Safe p ((call (.lockDueEvents now limit)).bind f) Q s := by
  refine h.plain rfl (fun _ _ _ => trivial) (fun s' r s'' hi hh _ he => ?_) herr
  simp only [Shared.answer, hh.view, hst, Db.applyAll_nil] at he
  cases he
  refine hok s'.core _ _ (fun ev hev => ?_) (hh.lock hi _)
  obtain ⟨hfound, hdue⟩ := Db.mem_dueEvents (List.mem_filter.mp (List.mem_of_mem_take hev)).1
  exact hi.wasDue hfound hdue (hh.reads now hnow)

theorem Held.lockUnpublishedEvent {f : Option OutboxEvent → Code β} {id : Uuid}
    (h : Held P p g c s) (hr : g.rows = []) (hst : g.staged = [])
    (hop : ∃ settings, g.call = .publishDueBatchOnce settings)
    (hnone : ∀ s', Held P p g c s' → (contract P).Safe p (f none) Q s')
    (hsome : ∀ c' ev s', Keeps (· ∈ g.rows) c c' → (c'.db.applyAll g.staged).event id = some ev →
      ev.publishedAt = none → Held P p { g with rows := [.event id] ++ g.rows } c' s' →
      (contract P).Safe p (f (some ev)) Q s')
    (herr : ∀ e s', e.isExternal = true → Inv P s' → Held P p g c s' → Q (.error e) s') :
    (contract P).Safe p ((call (.lockUnpublishedEvent id)).bind f) Q s := by
  refine h.plain rfl (fun _ _ hh => ⟨hh.staged.trans hst, hh.holdsNothing hr,
      hop.imp fun _ hc => hh.called.trans (congrArg some hc)⟩)
    (fun s' r s'' hi hh _ he => ?_) herr
  simp only [Shared.answer, hh.view] at he
  split at he
  · cases he
    exact hnone s' hh
  · rename_i ev hf
    split at he
    · cases he
      rw [Option.filter_eq_some_iff] at hf
      exact hsome s'.core ev _ hh.keeps hf.1 (by simpa using hf.2) (hh.lock hi _)
    · cases he
      exact hnone s' hh

end CloudJob
