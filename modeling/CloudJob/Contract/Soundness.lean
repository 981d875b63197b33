import CloudJob.Contract.Cancel
import CloudJob.Contract.Create
import CloudJob.Contract.Claim
import CloudJob.Contract.Publish
import CloudJob.Contract.Recover

/-!
# `Contract/Soundness.lean` — every reachable world keeps the contract

The programs are safe where they are started, so by the soundness of the rely/guarantee logic they
are safe in every world any run reaches. Three things come out of it, and the claims about the
system use nothing else of `Contract/`: the durable state is one the life cycle passes through
(`Reachable.lawful`), a call that is about to be made meets its precondition (`Reachable.pre`), and
an operation that has ended answered as it should (`Reachable.post`). -/

set_option autoImplicit false

namespace CloudJob

open Lib

variable {P : Params} {p : Pid}

/-- What an operation that has ended leaves behind. -/
def Post (P : Params) (p : Pid) : Call → Except Exc Outcome → Shared → Prop
  | .createJob _ user key type payload, r, s => match r with
    | .ok (.created result) =>
        JobService.Answered p user.id key (P.buildRequestHash type payload) result s.core
    | .ok _ => False
    | .error e => e = .crashed ∨ JobService.Refused user.id key
        (P.buildRequestHash type payload) e s.core
  | .handleMessage _ _ _, r, _ => ∀ e, r = .error e → e = .crashed ∨ e.isExternal = true
  | _, _, _ => True

theorem prog_safe {s s' : Shared} {op : Call} (hi : Inv P s) (h : s.start P p op = some s') :
    (contract P).Safe p (op.prog P) (Post P p op) s' := by
  have hh := Held.start hi h
  cases op with
  | createJob settings user key type payload =>
    refine (JobService.createJob_safe hh (fun _ _ _ h => by cases h) (fun _ h => by cases h) rfl
      rfl).andThen (fun r s₁ _ hr => ?_)
      fun e s₁ _ he => .inr he
    intro s₂ hi₂ hrely
    exact hr.mono hrely.keeps.toExtends
  | cancelJob user jobId =>
    exact (JobService.cancelJob_safe hh rfl rfl rfl).andThen (fun _ _ _ _ => fun _ _ _ => trivial)
      fun _ _ _ _ => trivial
  | publishDueBatchOnce settings =>
    exact (OutboxPublisher.publishDueBatchOnce_safe hh rfl rfl rfl).andThen
      (fun _ _ _ _ => fun _ _ _ => trivial) fun _ _ _ _ => trivial
  | handleMessage settings workerId message =>
    have hadm : P.allows settings = true ∧ message ∈ s.core.broker := by
      unfold Shared.start at h
      split at h
      · rename_i ha
        simpa [Call.admissible] using ha
      · cases h
    have hcore : s'.core = s.core := by
      unfold Shared.start at h
      split at h
      · cases h
        rfl
      · cases h
    refine (JobWorker.handleMessage_safe (w := ⟨settings, workerId, P.handlerRegistry⟩) hh
      rfl hadm.1 rfl
      rfl rfl (fun d hd => ?_) fun d hd => ?_).andThen (fun _ _ _ _ => fun _ _ _ _ h => by cases h)
      fun e s₁ _ he e' heq => ?_
    · rw [hcore]
      exact hi.lawful.wellFormed.message hadm.2 ⟨d, hd, rfl⟩
    · rw [hcore]
      exact hi.messages hadm.2 hd
    · cases heq
      exact .inr (he e rfl)
  | recoverDueBatchOnce settings =>
    exact (StaleRunningRecovery.recoverDueBatchOnce_safe hh rfl rfl rfl).andThen
      (fun _ _ _ _ => fun _ _ _ => trivial) fun _ _ _ _ => trivial

theorem Post.crashed (op : Call) (s : Shared) : Post P p op (.error .crashed) s := by
  cases op with
  | createJob => exact .inl rfl
  | handleMessage =>
    intro e he
    cases he
    exact .inl rfl
  | _ => trivial

variable {w : World (machine P)}

theorem Reachable.allSafe (h : Reachable P w) : (contract P).AllSafe (Post P) w := by
  have hinit : (contract P).AllSafe (Post P) (World.init P) := by
    refine ⟨Inv.init P, fun p op prog hp => ?_⟩
    cases hp
  exact hinit.reach (fun p op s s' hi hs => prog_safe hi hs) (fun p op s => Post.crashed op s)
    (fun _ _ _ _ _ _ _ _ => trivial) h

theorem Reachable.inv (h : Reachable P w) : Inv P w.shared := h.allSafe.1

theorem Reachable.lawful (h : Reachable P w) : Lawful P w.shared.core := h.inv.lawful

theorem Reachable.pre (h : Reachable P w) {op : Call} {o : Op} {k : Except Exc o.Ret → Code Outcome}
    (hp : w.procs p = some (op, .call o k)) : Pre P p o w.shared := h.allSafe.pre hp

theorem Reachable.post_ret (h : Reachable P w) {op : Call} {a : Outcome}
    (hp : w.procs p = some (op, .ret a)) : Post P p op (.ok a) w.shared := h.allSafe.post_ret hp

theorem Reachable.post_raise (h : Reachable P w) {op : Call} {e : Exc}
    (hp : w.procs p = some (op, .raise e)) : Post P p op (.error e) w.shared :=
    h.allSafe.post_raise hp

/-! ## Processes and their calls -/

theorem Reachable.step (h : Reachable P w) {mv : Move (machine P)} {w' : World (machine P)}
    (hs : (machine P).step mv w = some w') : Reachable P w' := .tail mv h trivial hs

theorem Shared.calls_spend (s : Shared) (p : Pid) : (s.spend p).calls = s.calls := by
  rcases s.spend_cases p with h | ⟨m, -, h⟩ <;> rw [h]

theorem CallEffect.calls {s s' : Shared} {o : Op} (h : CallEffect p o s s') :
    s'.calls = s.calls := by
  cases h with
  | committedAnswered => exact Shared.calls_spend _ _
  | left => exact Shared.calls_spend _ _
  | _ => rfl

theorem CallEffect.uuidOwner {s s' : Shared} {o : Op} {q : Pid} (h : CallEffect p o s s') {u : Uuid}
    (hu : s.uuidOwner u = some q) : s'.uuidOwner u = some q := by
  have hspend : ∀ x : Shared, (x.spend p).uuidOwner = x.uuidOwner := by
    intro x
    rcases x.spend_cases p with hs | ⟨m, -, hs⟩ <;> rw [hs]
  cases h with
  | drew v hv =>
    show Function.update s.uuidOwner v (some p) u = some q
    rw [Function.update_of_ne]
    · exact hu
    · rintro rfl
      rw [hv] at hu
      cases hu
  | committedAnswered =>
    rw [hspend]
    exact hu
  | left =>
    rw [hspend]
    exact hu
  | _ => exact hu

/-- Only the start of a process writes down a call. -/
theorem step_calls {mv : Move (machine P)} {w w' : World (machine P)}
    (hs : (machine P).step mv w = some w') :
    (∃ p c, mv = .start p c ∧ w.procs p = none ∧
      w'.shared.calls = Function.update w.shared.calls p (some c)) ∨
    ((∀ p c, mv ≠ .start p c) ∧ w'.shared.calls = w.shared.calls) := by
  rcases Machine.step_cases hs with ⟨p, c, s, rfl, hp, hst, rfl⟩ |
    ⟨p, ch, op, o, k, r, s, rfl, -, he, rfl⟩ | ⟨p, op, prog, rfl, -, rfl⟩ | ⟨e, s, rfl, he, rfl⟩
  · refine .inl ⟨p, c, rfl, hp, ?_⟩
    simp only [Shared.start] at hst
    split at hst
    · cases hst
      rfl
    · cases hst
  · exact .inr ⟨nofun, (exec_effect he).calls⟩
  · exact .inr ⟨nofun, rfl⟩
  · obtain ⟨c', -, rfl⟩ := Option.map_eq_some_iff.mp he
    exact .inr ⟨nofun, rfl⟩

/-- A process keeps the call it was started on. -/
theorem Reachable.calls (h : Reachable P w) {p : Pid} {op : Call} {prog : Code Outcome}
    (hp : w.procs p = some (op, prog)) : w.shared.calls p = some op := by
  refine h.invariant (I := fun w : World (machine P) => ∀ p op prog, w.procs p = some (op, prog) →
    w.shared.calls p = some op) (fun p op prog hp => by cases hp) (fun w₁ w₂ mv hi _ hs =>
    ?_) p op prog hp
  intro q op' prog' hq
  rcases Machine.step_procs hs hq with ⟨prog₁, hq₁⟩ | ⟨rfl, hnone, -⟩
  · rcases step_calls hs with ⟨p', c, -, hnone, hcalls⟩ | ⟨-, hcalls⟩
    · rw [hcalls, Function.update_of_ne]
      · exact hi q op' prog₁ hq₁
      · rintro rfl
        rw [hq₁] at hnone
        cases hnone
    · rw [hcalls]
      exact hi q op' prog₁ hq₁
  · rcases step_calls hs with ⟨p', c, hmv, -, hcalls⟩ | ⟨hno, -⟩
    · cases hmv
      rw [hcalls, Function.update_self]
    · exact absurd rfl (hno q op')

/-- A process id that was used once is never free again. -/
theorem Reachable.calls_none (h : Reachable P w) {p : Pid} (hp : w.procs p = none) :
    w.shared.calls p = none := by
  refine h.invariant (I := fun w : World (machine P) => ∀ q, w.procs q = none →
    w.shared.calls q = none) (fun q _ => rfl) (fun w₁ w₂ mv hi _ hs => ?_) p hp
  intro q hq
  obtain ⟨hnone, hno⟩ := Machine.step_procs_none hs hq
  rcases step_calls hs with ⟨p', c, rfl, -, hcalls⟩ | ⟨-, hcalls⟩
  · rw [hcalls, Function.update_of_ne]
    · exact hi q hnone
    · rintro rfl
      exact hno c rfl
  · rw [hcalls]
    exact hi q hnone

/-- A process stays what it was started as. -/
theorem Reachable.calls_stay (h : Reachable P w) {mv : Move (machine P)} {w' : World (machine P)}
    (hs : (machine P).step mv w = some w') {p : Pid} {op : Call} (hp : w.shared.calls p = some op) :
    w'.shared.calls p = some op := by
  rcases step_calls hs with ⟨q, c, -, hfree, hcalls⟩ | ⟨-, hcalls⟩
  · rw [hcalls, Function.update_of_ne]
    · exact hp
    · rintro rfl
      rw [h.calls_none hfree] at hp
      cases hp
  · rw [hcalls]
    exact hp

/-- What one process may rely on while another moves. -/
theorem Reachable.rely (h : Reachable P w) {mv : Move (machine P)} {w' : World (machine P)}
    (hs : (machine P).step mv w = some w') {q : Pid} (hq : mv.pid ≠ some q) :
    Rely q w.shared w'.shared := by
  rcases Machine.step_cases hs with ⟨p, op, s, rfl, -, hst, rfl⟩ |
    ⟨p, ch, op, o, k, r, s, rfl, hp, he, rfl⟩ | ⟨p, op, prog, rfl, -, rfl⟩ | ⟨e, s, rfl, he, rfl⟩
  · exact (h.inv.start hst).2 q fun heq => hq (congrArg some heq.symm)
  · exact ((contract P).step_ok h.inv (h.pre hp) trivial he).2 q fun heq =>
      hq (congrArg some heq.symm)
  · exact ((contract P).crash_ok h.inv).2 q fun heq => hq (congrArg some heq.symm)
  · exact (h.inv.env he).2 q

/-! ## What one step does -/

/-- Nothing was committed. -/
structure Quiet (c c' : Core) : Prop where
  jobs : c'.db.jobs = c.db.jobs
  logs : c'.db.logs = c.db.logs
  outbox : c'.db.outbox = c.db.outbox
  history : ∃ l, c'.history = l ++ c.history ∧ ∀ en ∈ l, ∀ st, en.event ≠ .stmt st

theorem Quiet.of_same {c c' : Core} (hdb : c'.db = c.db) (hh : c'.history = c.history) :
    Quiet c c' :=
  ⟨by rw [hdb], by rw [hdb], by rw [hdb], [], hh, fun _ hen => absurd hen List.not_mem_nil⟩

theorem Quiet.refl (c : Core) : Quiet c c := .of_same rfl rfl

theorem Quiet.record {c : Core} {ev : Event} (hev : ∀ st, ev ≠ .stmt st) (p : Pid) :
    Quiet c (c.record p [ev]) := by
  refine ⟨rfl, rfl, rfl, _, rfl, fun en hen st => ?_⟩
  simp only [List.map_cons, List.map_nil, List.reverse_singleton, List.mem_singleton] at hen
  subst hen
  exact hev st

theorem Core.spend_same (s : Shared) (q : Pid) : (s.spend q).core.db = s.core.db ∧
    (s.spend q).core.history = s.core.history := by
  rcases s.spend_cases q with h | ⟨m, -, h⟩ <;> rw [h] <;> exact ⟨rfl, rfl⟩

/-- **The durable state after one step.** Nothing was committed, or one process committed what it
had staged, and that was a transaction of the life cycle. -/
theorem Reachable.commits (h : Reachable P w) {mv : Move (machine P)} {w' : World (machine P)}
    (hs : (machine P).step mv w = some w') :
    Quiet w.shared.core w'.shared.core ∨
    ∃ p ch op k, mv = .run p ch ∧ w.procs p = some (op, .call .commit k) ∧
      Txn P w.shared.core (w.shared.staged p) ∧
      w'.shared.core.db = w.shared.core.db.applyAll (w.shared.staged p) ∧
      w'.shared.core.history = (w.shared.core.commit p (w.shared.staged p)).history := by
  rcases Machine.step_cases hs with ⟨p, op, s, rfl, -, hst, rfl⟩ |
    ⟨p, ch, op, o, k, r, s, rfl, hp, he, rfl⟩ | ⟨p, op, prog, rfl, -, rfl⟩ | ⟨e, s, rfl, he, rfl⟩
  · have hcore : s.core = w.shared.core := by
      simp only [Shared.start] at hst
      split at hst
      · cases hst
        rfl
      · cases hst
    exact .inl (by rw [hcore]; exact .refl _)
  · have hpre := h.pre hp
    cases exec_effect he with
    | nothing => exact .inl (.refl _)
    | drew => exact .inl (.refl _)
    | locked => exact .inl (.refl _)
    | wrote => exact .inl (.refl _)
    | released => exact .inl (.refl _)
    | committed ho =>
      subst ho
      exact .inr ⟨p, ch, op, k, rfl, hp, hpre.1, rfl, rfl⟩
    | committedAnswered ho =>
      subst ho
      obtain ⟨hdb, hh⟩ := Core.spend_same
        ({ w.shared with core := w.shared.core.commit p (w.shared.staged p) }.release p) p
      exact .inr ⟨p, ch, op, k, rfl, hp, hpre.1, hdb, hh⟩
    | left ho =>
      obtain ⟨hdb, hh⟩ := Core.spend_same (w.shared.release p) p
      exact .inl (.of_same hdb hh)
    | sent => exact .inl (.of_same rfl rfl)
    | dropped => exact .inl (.of_same rfl rfl)
    | started => exact .inl (.record (fun _ => Event.noConfusion) p)
    | noted ev ho =>
      refine .inl (.record (fun st heq => ?_) p)
      obtain ⟨o, rfl⟩ | ⟨n, rfl⟩ := Op.notes_cases ho
      · cases heq
      · cases heq
  · exact .inl (.refl _)
  · obtain ⟨c', hc', rfl⟩ := Option.map_eq_some_iff.mp he
    obtain ⟨hj, ho, hh, hl⟩ := Core.env_cases hc'
    exact .inl ⟨hj, hl, ho, [], hh, fun _ hen => absurd hen List.not_mem_nil⟩

/-- The row of a job after one step: as before, new, or rewritten by the one statement on it that
was committed. -/
theorem Reachable.row_cases (h : Reachable P w) {mv : Move (machine P)} {w' : World (machine P)}
    (hs : (machine P).step mv w = some w') {j : Uuid} {row' : Job}
    (hj : w'.shared.core.db.job j = some row') :
    w.shared.core.db.job j = some row' ∨
    (w.shared.core.db.job j = none ∧ ∃ owner type payload key retries createdAt updatedAt,
      row' = newPendingJob j owner type payload key (P.buildRequestHash type payload) retries
        createdAt updatedAt) ∨
    ∃ row st p ch, w.shared.core.db.job j = some row ∧ st.update.guard row = true ∧
      st.Allowed P w.shared.core row ∧ row' = st.update.set row ∧ mv = .run p ch ∧
      .updateJob j st ∈ w.shared.staged p ∧
      w'.shared.core.history = (w.shared.core.commit p (w.shared.staged p)).history := by
  rcases h.commits hs with hq | ⟨p, ch, op, k, rfl, -, htxn, hdb, hh⟩
  · exact .inl (by rwa [Db.job, hq.jobs] at hj)
  · rw [hdb] at hj
    refine (htxn.row_cases hj).imp_right fun hr => hr.imp_right ?_
    rintro ⟨row, st, hrow, hg, ha, rfl, hmem⟩
    exact ⟨row, st, p, ch, hrow, hg, ha, rfl, rfl, hmem, hh⟩

/-- What a step adds to the history is by the process that made it. -/
theorem CallEffect.history {s s' : Shared} {o : Op} (h : CallEffect p o s s') :
    ∃ l, s'.core.history = l ++ s.core.history ∧ ∀ en ∈ l, en.pid = p := by
  have hsame : ∀ {c : Core}, c.history = s.core.history → ∃ l, c.history = l ++ s.core.history ∧
      ∀ en ∈ l, en.pid = p := fun hh => ⟨[], hh, fun _ hen => absurd hen List.not_mem_nil⟩
  have hnew : ∀ {evs : List Event} {c : Core},
      c.history = (evs.map (Entry.mk p s.core.clock)).reverse ++ s.core.history →
      ∃ l, c.history = l ++ s.core.history ∧ ∀ en ∈ l, en.pid = p := by
    refine fun hh => ⟨_, hh, fun en hen => ?_⟩
    rw [List.mem_reverse] at hen
    obtain ⟨ev, -, rfl⟩ := List.mem_map.mp hen
    rfl
  cases h with
  | committed => exact hnew rfl
  | committedAnswered => exact hnew (Core.spend_same _ _).2
  | left => exact hsame (Core.spend_same _ _).2
  | started => exact hnew rfl
  | noted => exact hnew rfl
  | _ => exact hsame rfl

theorem step_history {mv : Move (machine P)} {w w' : World (machine P)}
    (hs : (machine P).step mv w = some w') : ∃ l,
    w'.shared.core.history = l ++ w.shared.core.history ∧
      ∀ en ∈ l, mv.pid = some en.pid ∧ w.procs en.pid ≠ none := by
  rcases Machine.step_cases hs with ⟨p, op, s, rfl, -, hst, rfl⟩ |
    ⟨p, ch, op, o, k, r, s, rfl, hp, he, rfl⟩ | ⟨p, op, prog, rfl, -, rfl⟩ | ⟨e, s, rfl, he, rfl⟩
  · refine ⟨[], ?_, fun _ hen => absurd hen List.not_mem_nil⟩
    simp only [Shared.start] at hst
    split at hst
    · cases hst
      rfl
    · cases hst
  · obtain ⟨l, hl, hpid⟩ := (exec_effect he).history
    refine ⟨l, hl, fun en hen => ?_⟩
    rw [hpid en hen, hp]
    exact ⟨rfl, nofun⟩
  · exact ⟨[], rfl, fun _ hen => absurd hen List.not_mem_nil⟩
  · obtain ⟨c', hc', rfl⟩ := Option.map_eq_some_iff.mp he
    exact ⟨[], (Core.env_cases hc').2.2.1, fun _ hen => absurd hen List.not_mem_nil⟩

/-- Whoever is in the history was started. -/
theorem Reachable.entry_calls (h : Reachable P w) :
    ∀ en ∈ w.shared.core.history, w.shared.calls en.pid ≠ none := by
  refine (h.invariant (I := fun w => Reachable P w ∧ ∀ en ∈ w.shared.core.history,
    w.shared.calls en.pid ≠ none) ⟨.refl, fun _ hen => absurd hen List.not_mem_nil⟩
    fun w₁ w₂ mv hi _ hs => ⟨hi.1.step hs, fun en hen => ?_⟩).2
  have hsome : w₁.shared.calls en.pid ≠ none := by
    obtain ⟨l, hl, hnew⟩ := step_history hs
    rw [hl] at hen
    rcases List.mem_append.mp hen with hen | hen
    · obtain ⟨⟨op, prog⟩, hp⟩ := Option.ne_none_iff_exists'.mp (hnew en hen).2
      rw [hi.1.calls hp]
      nofun
    · exact hi.2 en hen
  obtain ⟨op, hop⟩ := Option.ne_none_iff_exists'.mp hsome
  rw [hi.1.calls_stay hs hop]
  nofun

/-- A job update that is committed after a step was committed before it, or is by it. -/
theorem Reachable.committed_cases (h : Reachable P w) {mv : Move (machine P)}
    {w' : World (machine P)} (hs : (machine P).step mv w = some w') {x : Uuid × JobStmt}
    (hx : x ∈ w'.shared.core.committed) :
    x ∈ w.shared.core.committed ∨ ∃ p ch, mv = .run p ch ∧
      Txn P w.shared.core (w.shared.staged p) ∧ .updateJob x.1 x.2 ∈ w.shared.staged p ∧
      w'.shared.core.db = w.shared.core.db.applyAll (w.shared.staged p) := by
  obtain ⟨en, hen, hjs⟩ := List.mem_filterMap.mp hx
  rcases h.commits hs with hq | ⟨p, ch, op, k, rfl, -, htxn, hdb, hh⟩
  · obtain ⟨l, hl, hno⟩ := hq.history
    rw [hl] at hen
    rcases List.mem_append.mp hen with hen | hen
    · cases hev : en.event with
      | stmt st => exact absurd hev (hno en hen st)
      | _ =>
        rw [Entry.jobStmt, hev] at hjs
        cases hjs
    · exact .inl (List.mem_filterMap.mpr ⟨en, hen, hjs⟩)
  · rw [hh] at hen
    rcases List.mem_append.mp hen with hen | hen
    · rw [List.mem_reverse, List.map_map] at hen
      obtain ⟨st, hst, rfl⟩ := List.mem_map.mp hen
      cases st with
      | updateJob j jst =>
        cases hjs
        exact .inr ⟨p, ch, rfl, htxn, hst, hdb⟩
      | _ => cases hjs
    · exact .inl (List.mem_filterMap.mpr ⟨en, hen, hjs⟩)

/-- Who drew a uuid does not change. -/
theorem step_uuidOwner {mv : Move (machine P)} {w w' : World (machine P)}
    (hs : (machine P).step mv w = some w') {u : Uuid} {p : Pid}
    (hu : w.shared.uuidOwner u = some p) : w'.shared.uuidOwner u = some p := by
  rcases Machine.step_cases hs with ⟨q, op, s, rfl, -, hst, rfl⟩ |
    ⟨q, ch, op, o, k, r, s, rfl, -, he, rfl⟩ | ⟨q, op, prog, rfl, -, rfl⟩ | ⟨e, s, rfl, he, rfl⟩
  · simp only [Shared.start] at hst
    split at hst
    · cases hst
      exact hu
    · cases hst
  · exact (exec_effect he).uuidOwner hu
  · exact hu
  · obtain ⟨c', -, rfl⟩ := Option.map_eq_some_iff.mp he
    exact hu

/-- A step only adds to the durable state. -/
theorem Reachable.extends (h : Reachable P w) {mv : Move (machine P)} {w' : World (machine P)}
    (hs : (machine P).step mv w = some w') : w.shared.core.Extends w'.shared.core := by
  rcases Machine.step_cases hs with ⟨p, op, s, rfl, -, hst, rfl⟩ |
    ⟨p, ch, op, o, k, r, s, rfl, -, he, rfl⟩ | ⟨p, op, prog, rfl, -, rfl⟩ | ⟨e, s, rfl, he, rfl⟩
  · exact ((h.inv.start hst).2 (p + 1) (Nat.succ_ne_self p)).keeps.toExtends
  · exact (exec_effect he).extends
  · exact .refl _
  · exact ((h.inv.env he).2 0).keeps.toExtends

/-- What is committed is in the history. -/
theorem Core.mem_history_commit {c : Core} {l : List Stmt} {st : Stmt} (hst : st ∈ l) (p : Pid) :
    (⟨p, c.clock, .stmt st⟩ : Entry) ∈ (c.commit p l).history := by
  refine List.mem_append_left _ (List.mem_reverse.mpr ?_)
  exact List.mem_map_of_mem (List.mem_map_of_mem hst)

/-- A statement that a step adds to the history was committed by it. -/
theorem Reachable.new_stmt (h : Reachable P w) {mv : Move (machine P)} {w' : World (machine P)}
    (hs : (machine P).step mv w = some w') {l : List Entry}
    (hl : w'.shared.core.history = l ++ w.shared.core.history) {en : Entry}
    (hen : en ∈ l) {st : Stmt} (hev : en.event = .stmt st) :
    ∃ ch op k, mv = .run en.pid ch ∧ w.procs en.pid = some (op, .call .commit k) ∧
      en.clock = w.shared.core.clock ∧ Txn P w.shared.core (w.shared.staged en.pid) ∧
      st ∈ w.shared.staged en.pid ∧
      w'.shared.core.db = w.shared.core.db.applyAll (w.shared.staged en.pid) ∧
      l = ((w.shared.staged en.pid).map Event.stmt |>.map
        (Entry.mk en.pid w.shared.core.clock)).reverse := by
  rcases h.commits hs with hq | ⟨p, ch, op, k, rfl, hp, htxn, hdb, hh⟩
  · obtain ⟨l', hl', hno⟩ := hq.history
    rw [hl] at hl'
    exact absurd hev (hno en (List.append_cancel_right hl' ▸ hen) st)
  · rw [hl] at hh
    have hl' := List.append_cancel_right hh
    rw [hl', List.mem_reverse, List.map_map] at hen
    obtain ⟨st', hst', rfl⟩ := List.mem_map.mp hen
    cases hev
    exact ⟨ch, op, k, rfl, hp, rfl, htxn, hst', hdb, hl'⟩

end CloudJob
