import CloudJob.Contract.Held

/-!
# `Contract/Staged.lean` — what a call does to what is staged

A process stages a statement where a write is answered `true`, and nowhere else; it loses what it
has staged where its transaction ends; and nobody else touches it. -/

set_option autoImplicit false

namespace CloudJob

open Lib

variable {P : Params} {s s' : Shared} {p : Pid} {o : Op} {ch : Choice}

theorem Shared.staged_spend (s : Shared) (p : Pid) : (s.spend p).staged = s.staged := by
  rcases s.spend_cases p with hs | ⟨m, -, hs⟩ <;> rw [hs]

theorem CallEffect.staged_self (h : CallEffect p o s s') (ho : o.ends = false)
    (hw : ∀ st, o ≠ .write st) : s'.staged p = s.staged p := by
  cases h with
  | wrote st heq => exact absurd heq (hw st)
  | released hends =>
    rw [ho] at hends
    cases hends
  | committed heq =>
    rw [heq] at ho
    cases ho
  | committedAnswered heq =>
    rw [heq] at ho
    cases ho
  | left heq =>
    rw [heq] at ho
    cases ho
  | _ => rfl

/-- A write is staged where it is answered `true`, and only there. -/
theorem exec_write_cases {st : Stmt} {r : Except Exc Bool}
    (he : s.exec P.reads p (.write st) ch = some (r, s')) :
    (r = .ok true ∧ s'.staged p = s.staged p ++ [st]) ∨
    (r ≠ .ok true ∧ s'.staged p = s.staged p) := by
  cases ch with
  | answer =>
    simp only [Shared.exec, Shared.answer] at he
    split at he
    · cases he
      exact .inr ⟨fun h => (by cases h), rfl⟩
    · cases he
      exact .inr ⟨fun h => (by cases h), rfl⟩
    · split at he
      · cases he
        exact .inl ⟨rfl, Function.update_self ..⟩
      · cases he
  | fails text =>
    cases he
    exact .inr ⟨fun h => (by cases h), rfl⟩
  | _ => cases he

/-- A commit that is answered ends the transaction. -/
theorem exec_commit_ok {done : Unit} (he : s.exec P.reads p .commit ch = some (.ok done, s')) :
    s'.staged p = [] := by
  cases ch with
  | answer =>
    cases he
    rw [Shared.staged_spend]
    exact Shared.staged_release_self
  | fails text => cases he
  | failsAfter text => cases he
  | _ => cases he

/-- A transaction that is left has nothing staged, however the call went. -/
theorem exec_rollback {r : Except Exc Unit} (he : s.exec P.reads p .rollback ch = some (r, s')) :
    s' = s.release p := by
  cases ch with
  | answer => cases he; rfl
  | fails text => cases he; rfl
  | _ => cases he

theorem exec_aexit {raised : Bool} {r : Except Exc Unit}
    (he : s.exec P.reads p (.aexit raised) ch = some (r, s')) : s'.staged p = [] := by
  cases ch with
  | answer =>
    cases raised with
    | true => cases he; exact Shared.staged_release_self
    | false =>
      cases he
      show ((s.release p).spend p).staged p = []
      rw [Shared.staged_spend]
      exact Shared.staged_release_self
  | fails text => cases he; exact Shared.staged_release_self
  | _ => cases he

theorem CallEffect.staged_cases (h : CallEffect p o s s') : s'.staged p = s.staged p ∨
    s'.staged p = [] ∨ ∃ st, o = .write st ∧ s'.staged p = s.staged p ++ [st] := by
  cases h with
  | wrote st heq => exact .inr (.inr ⟨st, heq, Function.update_self ..⟩)
  | released => exact .inr (.inl Shared.staged_release_self)
  | committed => exact .inr (.inl Shared.staged_release_self)
  | committedAnswered =>
    rw [Shared.staged_spend]
    exact .inr (.inl Shared.staged_release_self)
  | left =>
    rw [Shared.staged_spend]
    exact .inr (.inl Shared.staged_release_self)
  | _ => exact .inl rfl

theorem CallEffect.staged_other {q : Pid} (h : CallEffect p o s s') (hq : q ≠ p) :
    s'.staged q = s.staged q := by
  cases h with
  | wrote st heq => exact Function.update_of_ne hq _ _
  | released => exact Shared.staged_release_of_ne hq
  | committed => exact Shared.staged_release_of_ne hq
  | committedAnswered =>
    rw [Shared.staged_spend]
    exact Shared.staged_release_of_ne hq
  | left =>
    rw [Shared.staged_spend]
    exact Shared.staged_release_of_ne hq
  | _ => rfl

theorem start_core {c : Call} (h : s.start P p c = some s') : s'.core = s.core := by
  unfold Shared.start at h
  split at h
  · cases h
    rfl
  · cases h

theorem start_staged_other {c : Call} {q : Pid} (h : s.start P p c = some s') (hq : q ≠ p) :
    s'.staged q = s.staged q := by
  unfold Shared.start at h
  split at h
  · cases h
    exact Shared.staged_release_of_ne hq
  · cases h

theorem start_staged {c : Call} (h : s.start P p c = some s') : s'.staged p = [] := by
  unfold Shared.start at h
  split at h
  · cases h
    exact Shared.staged_release_self
  · cases h

/-- A step of someone else. -/
theorem step_staged_other {w w' : World (machine P)} {mv : Move (machine P)} {q : Pid}
    (hs : (machine P).step mv w = some w') (hq : mv.pid ≠ some q) :
    w'.shared.staged q = w.shared.staged q := by
  have hne : ∀ {x : Pid}, mv.pid = some x → q ≠ x := fun hx heq =>
    hq (hx.trans (congrArg some heq.symm))
  rcases Machine.step_cases hs with ⟨x, c, s, rfl, -, hst, rfl⟩ |
    ⟨x, ch, c, o, k, r, s, rfl, -, he, rfl⟩ |
    ⟨x, c, prog, rfl, -, rfl⟩ | ⟨e, s, rfl, he, rfl⟩
  · exact start_staged_other hst (hne rfl)
  · exact (exec_effect he).staged_other (hne rfl)
  · exact Shared.staged_release_of_ne (hne rfl)
  · obtain ⟨c', -, rfl⟩ := Option.map_eq_some_iff.mp he
    rfl

/-- What is staged after a call was staged before it, or is a write that matched. -/
theorem CallEffect.staged_mem {st : Stmt} (h : CallEffect p o s s') (hst : st ∈ s'.staged p) :
    st ∈ s.staged p ∨ o = .write st ∧ st.outcome (s.view p) = .matched := by
  cases h with
  | wrote st' heq hmatched =>
    rw [show ((s.lock p st'.rows).stage p st').staged p = s.staged p ++ [st'] from
      Function.update_self ..] at hst
    rcases List.mem_append.mp hst with hst | hst
    · exact .inl hst
    · rw [List.mem_singleton.mp hst]
      exact .inr ⟨heq, hmatched⟩
  | released =>
    rw [Shared.staged_release_self] at hst
    cases hst
  | committed =>
    rw [Shared.staged_release_self] at hst
    cases hst
  | committedAnswered =>
    rw [Shared.staged_spend, Shared.staged_release_self] at hst
    cases hst
  | left =>
    rw [Shared.staged_spend, Shared.staged_release_self] at hst
    cases hst
  | _ => exact .inl hst

/-- So is what is staged after a step. -/
theorem step_staged_cases {w w' : World (machine P)} {mv : Move (machine P)} {q : Pid} {st : Stmt}
    (hs : (machine P).step mv w = some w') (hst : st ∈ w'.shared.staged q) :
    st ∈ w.shared.staged q ∨ ∃ ch op k, mv = .run q ch ∧
    w.procs q = some (op, .call (.write st) k) ∧
      st.outcome (w.shared.view q) = .matched := by
  by_cases hpid : mv.pid = some q
  · rcases Machine.step_cases hs with ⟨x, c, s, rfl, -, hstart, rfl⟩ |
      ⟨x, ch, c, o, k, r, s, rfl, hp, he, rfl⟩ | ⟨x, c, prog, rfl, -, rfl⟩ | ⟨e, s, rfl, -, rfl⟩
    · cases hpid
      rw [start_staged hstart] at hst
      cases hst
    · cases hpid
      refine ((exec_effect he).staged_mem hst).imp_right ?_
      rintro ⟨rfl, hmatched⟩
      exact ⟨ch, c, k, rfl, hp, hmatched⟩
    · cases hpid
      rw [Shared.staged_release_self] at hst
      cases hst
    · cases hpid
  · exact .inl (step_staged_other hs hpid ▸ hst)

/-- A commit that adds to the history leaves nothing staged. -/
theorem CallEffect.commit_staged (h : CallEffect p .commit s s') :
    s'.core.history = s.core.history ∨ s'.staged p = [] := by
  cases h with
  | released => exact .inr Shared.staged_release_self
  | committed => exact .inr Shared.staged_release_self
  | committedAnswered =>
    rw [Shared.staged_spend]
    exact .inr Shared.staged_release_self
  | left heq => cases heq
  | started j token heq => cases heq
  | noted ev heq => cases heq
  | wrote st heq => cases heq
  | _ => exact .inl rfl

/-! ## The ways a call can go -/

/-- The call raises. -/
def Choice.isFailure : Choice → Bool
  | .fails _ | .failsAfter _ => true
  | _ => false

/-- Where a write can violate no constraint, it matches, or not, or fails. -/
theorem exec_write_outcome {st : Stmt} {r : Except Exc Bool}
    (hv : ∀ orig, st.outcome (s.view p) ≠ .violates orig)
    (he : s.exec P.reads p (.write st) ch = some (r, s')) :
    (∃ text, r = .error (.database text) ∧ ch.isFailure = true ∧ s' = s) ∨
    (r = .ok false ∧ st.outcome (s.view p) = .noMatch ∧ s' = s) ∨
    (r = .ok true ∧ st.outcome (s.view p) = .matched ∧ s' = (s.lock p st.rows).stage p st) := by
  cases ch with
  | answer =>
    simp only [Shared.exec, Shared.answer] at he
    split at he
    · rename_i hout
      cases he
      exact .inr (.inl ⟨rfl, hout, rfl⟩)
    · rename_i orig hout
      exact absurd hout (hv orig)
    · rename_i hout
      split at he
      · cases he
        exact .inr (.inr ⟨rfl, hout, rfl⟩)
      · cases he
  | fails text =>
    cases he
    exact .inl ⟨text, rfl, rfl, rfl⟩
  | _ => cases he

theorem exec_selectJobForUpdate_cases {j : Uuid} {owner : Option Uuid} {r : Except Exc (Option Job)}
    (hst : s.staged p = [])
    (he : s.exec P.reads p (.selectJobForUpdate j owner) ch = some (r, s')) :
    (∃ text, r = .error (.database text) ∧ ch.isFailure = true ∧ s' = s) ∨
    (r = .ok none ∧ s' = s ∧ ∀ row, s.core.db.job j = some row →
      owner.all (· == row.ownerId) = false) ∨
    ∃ row, r = .ok (some row) ∧ s.core.db.job j = some row ∧ s' = s.lock p [.job j] := by
  cases ch with
  | answer =>
    have hview : s.view p = s.core.db := by rw [Shared.view, hst, Db.applyAll_nil]
    simp only [Shared.exec, Shared.answer, hview] at he
    split at he
    · rename_i hnone
      cases he
      refine .inr (.inl ⟨rfl, rfl, fun row hrow => ?_⟩)
      rw [hrow] at hnone
      simpa using hnone
    · rename_i row hrow
      rw [Option.filter_eq_some_iff] at hrow
      split at he
      · cases he
        exact .inr (.inr ⟨row, rfl, hrow.1, rfl⟩)
      · cases he
  | fails text =>
    cases he
    exact .inl ⟨text, rfl, rfl, rfl⟩
  | _ => cases he

theorem exec_commit_cases {r : Except Exc Unit} (he : s.exec P.reads p .commit ch = some (r, s')) :
    (∃ text, r = .error (.database text) ∧ ch.isFailure = true ∧ (s' = s ∨
      s' = { s with core := s.core.commit p (s.staged p) }.release p)) ∨
    (r = .ok () ∧ s' = ({ s with core := s.core.commit p (s.staged p) }.release p).spend p) := by
  cases ch with
  | answer =>
    cases he
    exact .inr ⟨rfl, rfl⟩
  | fails text =>
    cases he
    exact .inl ⟨text, rfl, rfl, .inl rfl⟩
  | failsAfter text =>
    cases he
    exact .inl ⟨text, rfl, rfl, .inr rfl⟩
  | _ => cases he

theorem exec_aexit_cases {raised : Bool} {r : Except Exc Unit}
    (he : s.exec P.reads p (.aexit raised) ch = some (r, s')) :
    (∃ text, r = .error (.database text) ∧ ch.isFailure = true ∧ s' = s.release p) ∨
    (r = .ok () ∧ (s' = s.release p ∨ s' = (s.release p).spend p)) := by
  cases ch with
  | answer => cases raised with
    | true =>
      cases he
      exact .inr ⟨rfl, .inl rfl⟩
    | false =>
      cases he
      exact .inr ⟨rfl, .inr rfl⟩
  | fails text =>
    cases he
    exact .inl ⟨text, rfl, rfl, rfl⟩
  | _ => cases he

/-- The transaction of `p` is over, and nothing else has changed. -/
structure Released (p : Pid) (s s' : Shared) : Prop where
  db : s'.core.db = s.core.db
  history : s'.core.history = s.core.history
  staged : s'.staged p = []
  locks : ∀ r, s'.locks r ≠ some p

theorem Released.release (p : Pid) (s : Shared) : Released p s (s.release p) :=
  ⟨rfl, rfl, Shared.staged_release_self, Shared.locks_release_self⟩

theorem Released.spend (h : Released p s s') : Released p s (s'.spend p) := by
  rcases s'.spend_cases p with hs | ⟨m, -, hs⟩
  · rwa [hs]
  · rw [hs]
    exact ⟨h.db, h.history, h.staged, h.locks⟩

end CloudJob
