import CloudJob.Lib.Discipline
import CloudJob.Contract.Soundness

/-!
# `Safety/Fencing.lean` — a stale worker changes nothing

A worker may outlive its lease: its job is recovered, claimed by somebody else and finished while
its own handler still runs. When it comes to one of its four finalizers, the execution token in the
`WHERE` of the update no longer matches, and everything else a finalizer does — the log, the retry
event, the commit, the notification — stands behind the answer of that update.

The second part is read off the text of the finalizers (`fenced`): apart from calls that change
nothing, a finalizer makes its update, and what follows an update that matched is not looked at.
That the update does not match is a fact about the state: a token that is not on the row any more
does not come back to it (`Stale.step`), since a token is issued once. -/

set_option autoImplicit false

namespace CloudJob

open Lib

variable {P : Params} {w w' : World (machine P)} {p : Pid} {j token : Uuid}

/-- The finalizers of `JobWorker`, for a claim. -/
inductive JobWorker.Finalizer (claim : ExecutionClaim) : Code Unit → Prop where
  | markCompleted : Finalizer claim (JobWorker.markCompleted claim)
  | markCancelled : Finalizer claim (JobWorker.markCancelled claim)
  | markFailed (error : String) : Finalizer claim (JobWorker.markFailed claim error)
  | scheduleRetry (error : String) : Finalizer claim (JobWorker.scheduleRetry claim error)

/-! ## The text of a finalizer -/

/-- Calls that change no table, record nothing and tell nobody. -/
def Op.isCalm : Op → Bool
  | .write _ | .commit | .publishDispatch _ | .ack _ | .reject _ | .startHandler _ _
  | .releaseReservation _ | .redisInvalidate _ | .redisPublish _ => false
  | _ => true

/-- Calm calls and updates that close `token`, as long as no update is answered `true`. -/
def fenced (j token : Uuid) : Discipline sig where
  State := Unit
  ok _ o := o.isCalm = true ∨ ∃ st : JobStmt, o = .write (.updateJob j st) ∧ st.closes = some token
  may _ o r := match o, r with
    | .write _, r => r ≠ .ok true
    | _, _ => True
  next _ _ _ := ()

theorem fenced_withUow {α : Type} {body : Code α}
    (h : (fenced j token).Obeys body (fun _ _ => True) ()) :
    (fenced j token).Obeys (withUow body) (fun _ _ => True) () := by
  refine .perform (.inl rfl) (fun _ _ => .bind (.attempt (h.mono fun r _ _ => ?_))) fun _ _ =>
    trivial
  cases r with
  | ok a => exact .perform (.inl rfl) (fun _ _ => trivial) fun _ _ => trivial
  | error e => exact .perform (.inl rfl) (fun _ _ => trivial) fun _ _ => trivial

theorem fenced_update {st : JobStmt} {rest : Code Unit} (hst : st.closes = some token) :
    (fenced j token).Obeys
      (withUow ((Jobs.update j st).bind fun done => if done then rest else .ret ()))
      (fun _ _ => True) () := by
  refine fenced_withUow (.perform (.inr ⟨st, rfl, hst⟩) (fun done hd => ?_) fun _ _ => trivial)
  cases done with
  | true => exact absurd rfl hd
  | false => trivial

theorem JobWorker.Finalizer.fenced {claim : ExecutionClaim} {fin : Code Unit}
    (h : JobWorker.Finalizer claim fin) :
    (fenced claim.job.id claim.executionToken).Obeys fin (fun _ _ => True) () := by
  cases h with
  | markCompleted => exact .perform (.inl rfl) (fun _ _ => fenced_update rfl) fun _ _ => trivial
  | markCancelled => exact .perform (.inl rfl) (fun _ _ => fenced_update rfl) fun _ _ => trivial
  | markFailed error => exact .perform (.inl rfl) (fun _ _ => fenced_update rfl) fun _ _ => trivial
  | scheduleRetry error =>
    refine .perform (.inl rfl) (fun now _ => ?_) fun _ _ => trivial
    refine .bind ?_
    unfold JobWorker.retryBackoffSeconds
    split
    · exact fenced_update rfl
    · trivial

/-! ## A stale token stays stale -/

/-- `token` was issued, and is not the token of job `j`. -/
structure Core.Stale (c : Core) (j token : Uuid) : Prop where
  issued : ∃ x ∈ c.committed, x.2.issues = some token
  gone : ∀ row, c.db.job j = some row → row.executionToken ≠ some token

/-- A statement puts a token on a row only by issuing it. -/
theorem executionToken_set {st : JobStmt} {row : Job}
    (h : (st.update.set row).executionToken = some token) :
    row.executionToken = some token ∨ st.issues = some token := by
  cases st with
  | markRunning workerId t now lease => exact .inr h
  | markQueued now => exact .inl h
  | requestRunningCancellation now => exact .inl h
  | _ => cases h

theorem Core.Stale.step (hst : w.shared.core.Stale j token) (h : Reachable P w)
    {mv : Move (machine P)} (hs : (machine P).step mv w = some w') :
    w'.shared.core.Stale j token := by
  obtain ⟨x, hx, hissues⟩ := hst.issued
  refine ⟨⟨x, (h.extends hs).committed x hx, hissues⟩, fun row' hj ht => ?_⟩
  rcases h.row_cases hs hj with hsame | ⟨-, _, _, _, _, _, _, _, rfl⟩ |
    ⟨row, st, _, _, hrow, -, ha, rfl, -⟩
  · exact hst.gone row' hsame ht
  · cases ht
  · rcases executionToken_set ht with hold | hnew
    · exact hst.gone row hrow hold
    · -- it would be issued a second time
      have hzero : w.shared.core.issued token = 0 := by
        cases st with
        | markRunning workerId t now lease =>
          cases hnew
          exact ha.2.1
        | _ => cases hnew
      refine absurd hzero (Nat.pos_iff_ne_zero.mp (List.countP_pos_iff.mpr ⟨x, hx, ?_⟩))
      simp [hissues]

theorem Core.Stale.inside {α : Type} {m m' : Code α} (hin : Inside (machine P) p m w m' w')
    (h : Reachable P w) (hst : w.shared.core.Stale j token) : w'.shared.core.Stale j token := by
  induction hin with
  | refl => exact hst
  | own hin _ hs ih => exact ih.step (h.trans hin.reach) hs
  | other hin _ hs ih => exact ih.step (h.trans hin.reach) hs

/-! ## One call of a finalizer -/

theorem exec_calm {s s' : Shared} {o : Op} {reads : Datetime → Datetime → Bool} {ch : Choice}
    {r : Except Exc o.Ret} (ho : o.isCalm = true) (he : s.exec reads p o ch = some (r, s')) :
    s'.core.db = s.core.db ∧ s'.core.history = s.core.history := by
  cases exec_effect he with
  | nothing => exact ⟨rfl, rfl⟩
  | drew => exact ⟨rfl, rfl⟩
  | locked => exact ⟨rfl, rfl⟩
  | released => exact ⟨rfl, rfl⟩
  | left => exact Core.spend_same (s.release p) p
  | wrote st ho' => subst ho'; cases ho
  | committed ho' => subst ho'; cases ho
  | committedAnswered ho' => subst ho'; cases ho
  | sent m ho' => subst ho'; cases ho
  | dropped id ho' => obtain rfl | rfl := ho' <;> cases ho
  | started j token ho' => subst ho'; cases ho
  | noted ev ho' =>
    cases o with
    | redisInvalidate => cases ho
    | redisPublish => cases ho
    | _ => cases ho'

/-- The update of a finalizer with a stale token matches nothing. -/
theorem exec_fenced (h : Reachable P w) (hst : w.shared.core.Stale j token) {op : Call}
    {st : JobStmt}
    {k : Except Exc Bool → Code Outcome} (hp :
      w.procs p = some (op, .call (.write (.updateJob j st)) k))
    (hcloses : st.closes = some token) {ch : Choice} {r : Except Exc Bool} {s' : Shared}
    (he : w.shared.exec P.reads p (.write (.updateJob j st)) ch = some (r, s')) :
    s' = w.shared ∧ r ≠ .ok true := by
  obtain ⟨-, -, hfirst, -⟩ := h.pre hp
  have hview : (w.shared.view p).job j = w.shared.core.db.job j :=
    job_applyAll (hfirst j (List.mem_singleton_self _))
  have hno : (Stmt.updateJob j st).outcome (w.shared.view p) = .noMatch := by
    rw [Stmt.outcome, hview]
    cases hrow : w.shared.core.db.job j with
    | none => rfl
    | some row =>
      rw [Option.any_some, if_neg]
      intro hg
      exact hst.gone row hrow (JobStmt.guard_of_closes hcloses hg).2
  cases ch with
  | answer =>
    simp only [Shared.exec, Shared.answer, hno, Option.some.injEq, Prod.mk.injEq] at he
    obtain ⟨rfl, rfl⟩ := he
    exact ⟨rfl, fun h => by cases h⟩
  | fails text =>
    simp only [Shared.exec, Op.failure, Option.map_some, Option.some.injEq, Prod.mk.injEq] at he
    obtain ⟨rfl, rfl⟩ := he
    exact ⟨rfl, fun h => by cases h⟩
  | _ => cases he

/-- What is left of a finalizer with a stale token is still one that makes no other calls. -/
theorem fenced_inside {op : Call} {m m' : Code Unit} {k : Unit → Code Outcome} (h : Reachable P w)
    (hp : w.procs p = some (op, m.bind k)) (hst : w.shared.core.Stale j token)
    (hm : (fenced j token).Obeys m (fun _ _ => True) ())
    (hin : Inside (machine P) p m w m' w') : (fenced j token).Obeys m' (fun _ _ => True) () := by
  induction hin with
  | refl => exact hm
  | other _ _ _ ih => exact ih
  | @own o f w₁ w₂ ch r hin he _ ih =>
    refine ih.2 r ?_
    rcases ih.1 with hcalm | ⟨st, rfl, hcloses⟩
    · cases o with
      | write st => cases hcalm
      | _ => trivial
    · exact (exec_fenced (h.trans hin.reach) (hst.inside hin h) (hin.procs hp) hcloses he).2

/-- **Fencing.** A token is closed at most once. And a finalizer that a worker enters with a token
that is closed, or is not on the row of its job, changes no job, no log and no event at any of its
calls, records nothing, and makes no call that notifies. -/
theorem token_fencing (h : Reachable P w) :
    (∀ token, w.shared.core.closed token ≤ 1) ∧
    ∀ p op claim fin k, JobWorker.Finalizer claim fin → w.procs p = some (op, fin.bind k) →
      0 < w.shared.core.issued claim.executionToken →
      (0 < w.shared.core.closed claim.executionToken ∨
        ∀ row, w.shared.core.db.job claim.job.id = some row →
          row.executionToken ≠ some claim.executionToken) →
      ∀ o f w₁ w₂ ch, Inside (machine P) p fin w (.call o f) w₁ →
        (machine P).step (.run p ch) w₁ = some w₂ →
        w₂.shared.core.db = w₁.shared.core.db ∧
        w₂.shared.core.history = w₁.shared.core.history ∧ o.notes = none := by
  refine ⟨fun token => ?_, ?_⟩
  · obtain ⟨hled, hone⟩ := h.lawful.ledger token
    omega
  intro p op claim fin k hfin hp hissued hgone o f w₁ w₂ ch hin hs
  have hstale : w.shared.core.Stale claim.job.id claim.executionToken := by
    obtain ⟨x, hx, hissues⟩ := List.countP_pos_iff.mp hissued
    refine ⟨⟨x, hx, by simpa using hissues⟩, ?_⟩
    rcases hgone with hclosed | hgone
    · intro row hrow ht
      have hopen := (h.lawful.token_open hrow ht).2
      omega
    · exact hgone
  have hr₁ : Reachable P w₁ := h.trans hin.reach
  have hp₁ := hin.procs hp
  have hok := (fenced_inside h hp hstale hfin.fenced hin).1
  rcases Machine.step_cases hs with ⟨_, _, _, hmv, -⟩ |
    ⟨q, ch', c', o', k', r', s, hmv, hq, he, rfl⟩ |
    ⟨_, _, _, hmv, -⟩ | ⟨_, _, hmv, -⟩
  · cases hmv
  · cases hmv
    rw [hp₁] at hq
    cases hq
    rcases hok with hcalm | ⟨st, rfl, hcloses⟩
    · obtain ⟨hdb, hh⟩ := exec_calm hcalm he
      refine ⟨hdb, hh, ?_⟩
      cases o <;> first | rfl | cases hcalm
    · obtain ⟨rfl, -⟩ := exec_fenced hr₁ (hstale.inside hin h) hp₁ hcloses he
      exact ⟨rfl, rfl, rfl⟩
  · cases hmv
  · cases hmv

/-- The claim of the run. -/
def staleClaim : ExecutionClaim where
  job := ⟨10, 1, .success, .obj [], .queued, 0, 3, none, none, none, none, none, none, none⟩
  executionToken := 20
  attemptNumber := 1

/-- In the run below the worker is about to mark its job completed, when recovery has queued it
again. -/
theorem token_fencing_recovered : ∃ (w : World (machine .default)) (op : Call)
    (k : Unit → Code Outcome), Reachable .default w ∧ w.shared.core.closed 20 = 1 ∧
    w.procs 2 = some (op, (JobWorker.markCompleted staleClaim).bind k) ∧
    ∀ o f w₁ w₂ ch,
      Inside (machine .default) 2 (JobWorker.markCompleted staleClaim) w (.call o f) w₁ →
      (machine .default).step (.run 2 ch) w₁ = some w₂ →
      w₂.shared.core.db = w₁.shared.core.db ∧
      w₂.shared.core.history = w₁.shared.core.history ∧ o.notes = none := by
  have hprogram : ((machine .default).run (claimedMoves ++ answers 2 1 ++ [.env (.tick 61000000)] ++
      recoverMoves 3 12 (seconds 61)) (World.init .default)).map (fun w => w.procs 2) =
      some (some (.handleMessage {} "w" ⟨0, .dispatch ⟨11, 10, 0⟩⟩,
        ((JobWorker.markCompleted staleClaim).bind fun _ => call (.ack 0)).bind fun _ =>
        .ret .done)) := rfl
  have hclosed : ((machine .default).run (claimedMoves ++ answers 2 1 ++ [.env (.tick 61000000)] ++
      recoverMoves 3 12 (seconds 61)) (World.init .default)).map (fun w =>
        (w.shared.core.closed 20, w.shared.core.issued 20)) = some (1, 1) := by
    decide +kernel
  obtain ⟨w, hw, hp⟩ := Option.map_eq_some_iff.mp hprogram
  rw [hw, Option.map_some, Option.some.injEq, Prod.mk.injEq] at hclosed
  rw [Prog.bind_assoc] at hp
  have hone : 0 < w.shared.core.closed 20 ∧ 0 < w.shared.core.issued 20 := by omega
  exact ⟨w, _, _, .of_run hw, hclosed.1, hp, (token_fencing (.of_run hw)).2 2 _ staleClaim _ _
    .markCompleted hp hone.2 (.inl hone.1)⟩

end CloudJob
