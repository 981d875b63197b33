import CloudJob.Runtime

/-!
# `Contract/Effects.lean` — everything a call can do

`exec` has a line for each call and each way it can go. Seen from another process there are eleven
kinds of step, and `exec_effect` sorts every outcome of every call into one of them. The proofs that
the contract is kept never look at `exec` again. -/

set_option autoImplicit false

namespace CloudJob

open Lib

/-- The post-commit effect of a call. -/
def Op.notes : Op → Option Event
  | .redisInvalidate ownerId => some (.invalidated ownerId)
  | .redisPublish ev => some (.announced ev)
  | _ => none

theorem Op.notes_cases {o : Op} {ev : Event} (h : o.notes = some ev) :
    (∃ u, ev = .invalidated u) ∨ ∃ n, ev = .announced n := by
  cases o with
  | redisInvalidate ownerId => exact .inl ⟨ownerId, (Option.some.inj h).symm⟩
  | redisPublish n => exact .inr ⟨n, (Option.some.inj h).symm⟩
  | _ => cases h

/-- The call ends the transaction, if it is answered. -/
def Op.ends : Op → Bool
  | .commit | .rollback | .aexit _ => true
  | _ => false

/-- What a call of `p` can do to the shared state. -/
inductive CallEffect (p : Pid) (o : Op) (s : Shared) : Shared → Prop where
  | nothing : CallEffect p o s s
  | drew (u : Uuid) : s.uuidOwner u = none →
      CallEffect p o s { s with uuidOwner := Function.update s.uuidOwner u (some p) }
  | locked (rs : List LockRow) : (∀ r ∈ rs, s.free p r = true) →
      (∀ e, .event e ∈ rs → (s.view p).event e ≠ none) → (∀ u, .user u ∈ rs → o = .lockUser u) →
      CallEffect p o s (s.lock p rs)
  | wrote (st : Stmt) : o = .write st → st.outcome (s.view p) = .matched →
      (∀ r ∈ st.rows, s.free p r = true) → CallEffect p o s ((s.lock p st.rows).stage p st)
  | released : o.ends = true → CallEffect p o s (s.release p)
  | committed : o = .commit →
      CallEffect p o s ({ s with core := s.core.commit p (s.staged p) }.release p)
  | committedAnswered : o = .commit →
      CallEffect p o s (({ s with core := s.core.commit p (s.staged p) }.release p).spend p)
  | left : o = .aexit false → CallEffect p o s ((s.release p).spend p)
  | sent (m : DispatchOutboxMessage) : o = .publishDispatch m →
      CallEffect p o s { s with core := s.core.send (.dispatch m) }
  | dropped (id : Nat) : o = .ack id ∨ o = .reject id →
      CallEffect p o s { s with core := s.core.drop id }
  | started (j token : Uuid) : o = .startHandler j token →
      CallEffect p o s { s with core := s.core.record p [.handlerStarted j token] }
  | noted (ev : Event) : o.notes = some ev →
      CallEffect p o s { s with core := s.core.record p [ev] }

theorem Db.mem_dueEvents {db : Db} {now : Datetime} {ev : OutboxEvent} (h : ev ∈ db.dueEvents now) :
    db.event ev.id = some ev ∧ ev.isDue now = true := by
  unfold Db.dueEvents at h
  rw [List.mem_insertionSort, List.mem_filter] at h
  exact ⟨Table.find?_of_mem h.1, h.2⟩

theorem Db.mem_expiredRunning {db : Db} {now : Datetime} {job : Job}
    (h : job ∈ db.expiredRunning now) : db.job job.id = some job ∧ job.isExpired now = true := by
  unfold Db.expiredRunning at h
  rw [List.mem_insertionSort, List.mem_filter] at h
  exact ⟨Table.find?_of_mem h.1, h.2⟩

/-- A job is in a batch once. -/
theorem Db.nodup_expiredRunning (db : Db) (now : Datetime) :
    ((db.expiredRunning now).map Job.id).Nodup := by
  unfold Db.expiredRunning
  have hperm := (List.perm_insertionSort
    (fun a b : Job => lexLe a.recoveryOrder b.recoveryOrder = true)
    (db.jobs.rows.filter (Job.isExpired now))).map Job.id
  exact hperm.nodup_iff.mpr (db.jobs.distinct.sublist (List.filter_sublist.map Job.id))

theorem answer_effect {p : Pid} {s s' : Shared} {o : Op} {r : Except Exc o.Ret}
    (h : s.answer p o = some (r, s')) : CallEffect p o s s' := by
  cases o with
  | selectJobForUpdate id ownerId =>
    simp only [Shared.answer] at h
    split at h
    · cases h; exact .nothing
    · split at h
      · rename_i hfree
        cases h
        refine .locked _ ?_ ?_ ?_
        · intro r hr
          rw [List.mem_singleton] at hr
          exact hr ▸ hfree
        · intro e he
          simp at he
        · intro u hu
          simp at hu
      · cases h
  | lockUser id =>
    simp only [Shared.answer] at h
    split at h
    · split at h
      · rename_i hfree
        cases h
        refine .locked _ ?_ ?_ ?_
        · intro r hr
          rw [List.mem_singleton] at hr
          exact hr ▸ hfree
        · intro e he
          simp at he
        · intro u hu
          cases List.mem_singleton.mp hu
          rfl
      · cases h
    · cases h; exact .nothing
  | lockExpiredJobs now limit =>
    simp only [Shared.answer, Option.some.injEq, Prod.mk.injEq] at h
    rw [← h.2]
    refine .locked _ ?_ ?_ ?_
    · intro r hr
      obtain ⟨job, hjob, rfl⟩ := List.mem_map.mp hr
      exact (List.mem_filter.mp (List.mem_of_mem_take hjob)).2
    · intro e he
      obtain ⟨job, -, hjob⟩ := List.mem_map.mp he
      cases hjob
    · intro u hu
      obtain ⟨job, -, hjob⟩ := List.mem_map.mp hu
      cases hjob
  | lockDueEvents now limit =>
    simp only [Shared.answer, Option.some.injEq, Prod.mk.injEq] at h
    rw [← h.2]
    refine .locked _ ?_ ?_ ?_
    · intro r hr
      obtain ⟨ev, hev, rfl⟩ := List.mem_map.mp hr
      exact (List.mem_filter.mp (List.mem_of_mem_take hev)).2
    · intro e he
      obtain ⟨ev, hev, heq⟩ := List.mem_map.mp he
      cases heq
      have hm := (List.mem_filter.mp (List.mem_of_mem_take hev)).1
      rw [(Db.mem_dueEvents hm).1]
      nofun
    · intro u hu
      obtain ⟨ev, -, hev⟩ := List.mem_map.mp hu
      cases hev
  | lockUnpublishedEvent id =>
    simp only [Shared.answer] at h
    split at h
    · cases h; exact .nothing
    · rename_i ev hev
      split at h
      · rename_i hfree
        cases h
        refine .locked _ ?_ ?_ ?_
        · intro r hr
          rw [List.mem_singleton] at hr
          exact hr ▸ hfree
        · intro e he
          rw [List.mem_singleton] at he
          cases he
          rw [Option.filter_eq_some_iff] at hev
          rw [hev.1]
          nofun
        · intro u hu
          simp at hu
      · cases h; exact .nothing
  | write st =>
    simp only [Shared.answer] at h
    split at h
    · cases h; exact .nothing
    · cases h; exact .nothing
    · rename_i hmatched
      split at h
      · rename_i hfree
        cases h
        exact .wrote st rfl hmatched (List.all_eq_true.mp hfree)
      · cases h
  | commit => cases h; exact .committedAnswered rfl
  | rollback => cases h; exact .released rfl
  | aexit raised =>
    cases raised with
    | true => cases h; exact .released rfl
    | false => cases h; exact .left rfl
  | publishDispatch m => cases h; exact .sent m rfl
  | ack id => cases h; exact .dropped id (.inl rfl)
  | reject id => cases h; exact .dropped id (.inr rfl)
  | startHandler j token => cases h; exact .started j token rfl
  | redisInvalidate ownerId => cases h; exact .noted _ rfl
  | redisPublish ev => cases h; exact .noted _ rfl
  | now => cases h
  | uuid4 => cases h
  | reserve => cases h
  | aenter => cases h; exact .nothing
  | selectJob => cases h; exact .nothing
  | selectJobByKey => cases h; exact .nothing
  | countRunning => cases h; exact .nothing
  | selectPendingDispatch => cases h; exact .nothing
  | releaseReservation => cases h; exact .nothing

/-- **Every outcome of every call.** -/
theorem exec_effect {reads : Datetime → Datetime → Bool} {p : Pid} {s s' : Shared} {o : Op}
    {ch : Choice} {r : Except Exc o.Ret} (h : s.exec reads p o ch = some (r, s')) :
    CallEffect p o s s' := by
  cases ch with
  | answer => exact answer_effect h
  | fails text =>
    simp only [Shared.exec, Option.map_eq_some_iff, Prod.mk.injEq] at h
    obtain ⟨_, _, _, rfl⟩ := h
    cases o with
    | rollback => exact .released rfl
    | aexit => exact .released rfl
    | _ => exact .nothing
  | failsAfter text =>
    cases o with
    | commit => cases h; exact .committed rfl
    | publishDispatch m => cases h; exact .sent m rfl
    | _ => cases h
  | time t =>
    cases o with
    | now =>
      simp only [Shared.exec] at h
      split at h
      · cases h; exact .nothing
      · cases h
    | _ => cases h
  | uuid u =>
    cases o with
    | uuid4 =>
      simp only [Shared.exec] at h
      split at h
      · rename_i hfree
        cases h
        exact .drew u hfree
      · cases h
    | _ => cases h
  | reservation r =>
    cases o with
    | reserve => cases h; exact .nothing
    | _ => cases h

end CloudJob
