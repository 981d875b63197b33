import CloudJob.Contract.Create
import CloudJob.Safety.Atomicity

/-!
# `Safety/Reservation.lean` — what becomes of a reservation

`create_job` asks the rate limiter for a place, and gives it back when no job comes of it: once, in
the `except` arms, and never after the commit. What it holds is read off its calls; that a job came
of it is read off the database. -/

set_option autoImplicit false

namespace CloudJob

open Lib

/-! ## The text -/

/-- How far `create_job` has come with its reservation, and with the job it is for. -/
inductive Loan where
  | unasked
  | held (reservation : Option CreateJobRateLimitReservationDTO)
  | inserted (reservation : Option CreateJobRateLimitReservationDTO) (jobId : Uuid)
  | created (reservation : Option CreateJobRateLimitReservationDTO) (jobId : Uuid)
  | returned (reservation : CreateJobRateLimitReservationDTO)

/-- The calls that leave the reservation, the job and the transaction alone. -/
def Op.isAside : Op → Bool
  | .reserve _ | .releaseReservation _ | .write (.insertJob _) | .commit | .rollback | .aexit _ =>
      false
  | _ => true

/-- Leaving the transaction. -/
def Op.leaves : Op → Bool
  | .rollback | .aexit _ => true
  | _ => false

namespace Loan

/-- What each state allows beyond the calls on the side and the end of the transaction. -/
def Allows : Loan → Op → Prop
  | unasked, o => ∃ user, o = .reserve user
  | held reservation, o => (∃ job, o = .write (.insertJob job)) ∨
      ∃ r, reservation = some r ∧ o = .releaseReservation r
  | inserted reservation _, o => o = .commit ∨ ∃ r, reservation = some r ∧ o = .releaseReservation r
  | created _ _, _ => False
  | returned _, _ => False

/-- The row is gone with the transaction. -/
def left : Loan → Loan
  | inserted reservation _ => held reservation
  | q => q

def next : Loan → (o : Op) → Except Exc o.Ret → Loan
  | unasked, .reserve _, .ok reservation => held reservation
  | held reservation, .write (.insertJob job), .ok _ => inserted reservation job.id
  | inserted reservation j, .commit, .ok _ => created reservation j
  | _, .releaseReservation reservation, _ => returned reservation
  | q, .rollback, _ => q.left
  | q, .aexit _, _ => q.left
  | q, _, _ => q

/-- An insert matches, or it raises. -/
def May : (o : Op) → Except Exc o.Ret → Prop
  | .write (.insertJob _), r => r ≠ .ok false
  | _, _ => True

/-- Nothing is owed any more. -/
def Settled : Loan → Prop
  | held reservation | inserted reservation _ => reservation = none
  | _ => True

end Loan

@[reducible] def loan : Discipline sig where
  State := Loan
  ok q o := o.isAside = true ∨ o.leaves = true ∨ q.Allows o
  may _ o r := Loan.May o r
  next := Loan.next

theorem Loan.next_aside {q : Loan} {o : Op} (ho : o.isAside = true) (r : Except Exc o.Ret) :
    q.next o r = q := by
  cases o with
  | write st =>
    cases st with
    | insertJob job => cases ho
    | _ => cases q <;> rfl
  | reserve user => cases ho
  | releaseReservation reservation => cases ho
  | commit => cases ho
  | rollback => cases ho
  | aexit raised => cases ho
  | _ => cases q <;> rfl

theorem Loan.next_leaves {q : Loan} {o : Op} (ho : o.leaves = true) (r : Except Exc o.Ret) :
    q.next o r = q.left := by
  cases o with
  | rollback => cases q <;> rfl
  | aexit raised => cases q <;> rfl
  | _ => cases ho

theorem Loan.Settled.left {q : Loan} (h : q.Settled) : q.left.Settled := by
  cases q <;> exact h

/-- What only reads, tells, or leaves the transaction ends with nothing owed, if nothing was. -/
theorem loan_aside {α : Type} {m : Code α} {q : Loan}
    (h : m.Asks fun o : Op => o.isAside = true ∨ o.leaves = true) (hq : q.Settled) :
    loan.Obeys m (fun _ q' => q'.Settled) q := by
  refine .of_asks (D := loan) (I := Loan.Settled) (h.mono fun o ho q hq => ?_) hq
  rcases ho with ho | ho
  · exact ⟨.inl ho, fun r => (congrArg Loan.Settled (Loan.next_aside ho r)).mpr hq⟩
  · exact ⟨.inr (.inl ho), fun r => (congrArg Loan.Settled (Loan.next_leaves ho r)).mpr hq.left⟩

/-- A call on the side. -/
theorem loan_call {β : Type} {o : Op} {f : o.Ret → Code β}
    {R : Except Exc β → Loan → Prop} {q : Loan}
    (ho : o.isAside = true) (hf : ∀ a, loan.Obeys (f a) R q) (hR : ∀ e, R (.error e) q) :
    loan.Obeys ((CloudJob.call o).bind f) R q :=
  .perform (.inl ho) (fun a _ => (congrArg (loan.Obeys (f a) R) (Loan.next_aside ho (.ok a))).mpr
    (hf a))
    fun e _ => (congrArg (R (.error e)) (Loan.next_aside ho (.error e))).mpr (hR e)

namespace JobService

variable {α : Type}

/-- The job is created, or the reservation is still owed. -/
def Placed (reservation : Option CreateJobRateLimitReservationDTO) : Except Exc α → Loan → Prop
  | .ok _, q => ∃ j, q = .created reservation j
  | .error _, q => q = .held reservation ∨ ∃ j, q = .inserted reservation j

theorem insertJob_loan (reservation : Option CreateJobRateLimitReservationDTO) (settings : Settings)
    (user : CurrentUserDTO) (key : String) (type : JobType) (payload : Json) (hash : String) :
    loan.Obeys (insertJob settings user key type payload hash) (Placed reservation)
    (.held reservation) := by
  have hheld : ∀ e, Placed reservation (.error e : Except Exc StoredJobDTO) (.held reservation) :=
    fun _ => .inl rfl
  unfold insertJob Jobs.createPendingJob JobLogs.createJobCreatedLog JobLogs.createSystemLog
    Outbox.createDispatchEvent
  simp only [Prog.bind_eq, Prog.pure_eq, utcNow, uuid4, Prog.bind_assoc, Prog.ret_bind]
  refine loan_call rfl (fun id => loan_call rfl (fun t => loan_call rfl (fun t' => ?_) hheld) hheld)
    hheld
  refine .bind (.bind (.attempt ⟨.inr (.inr (.inl ⟨_, rfl⟩)), fun r hmay => ?_⟩))
  cases r with
  | ok matched =>
    have hinserted : ∀ e, Placed reservation (.error e : Except Exc StoredJobDTO)
        (.inserted reservation id) :=
      fun _ => .inr ⟨id, rfl⟩
    show loan.Obeys _ (Placed reservation) (.inserted reservation id)
    refine loan_call rfl (fun _ => loan_call rfl
        (fun _ => loan_call rfl (fun at' => loan_call rfl (fun _ =>
      loan_call rfl (fun _ => loan_call rfl (fun _ => ?_) hinserted) hinserted) hinserted)
        hinserted) hinserted)
      hinserted
    exact .perform (.inr (.inr (.inl rfl))) (fun _ _ => ⟨id, rfl⟩) fun e _ => .inr ⟨id, rfl⟩
  | error e =>
    cases e with
    | integrity orig =>
      show loan.Obeys (if _ then _ else _ : Code Bool) _ (.held reservation)
      split
      · exact .inl rfl
      · exact .inl rfl
    | _ => exact .inl rfl

theorem notifies_aside {m : Code α} (h : m.Asks fun o : Op => o.notifies = true) :
    m.Asks fun o : Op => o.isAside = true ∨ o.leaves = true :=
  h.mono fun o ho => .inl (by cases o <;> first | rfl | cases ho)

/-- The reservation is given back, and what follows owes nothing. -/
theorem releaseReservation_loan {reservation : Option CreateJobRateLimitReservationDTO} {m : Code α}
    {q : Loan} (hq : q = .held reservation ∨ ∃ j, q = .inserted reservation j)
    (hm : m.Asks fun o : Op => o.isAside = true ∨ o.leaves = true) :
    loan.Obeys ((releaseReservation reservation).bind fun _ => m) (fun _ q' => q'.Settled) q := by
  cases reservation with
  | none => exact loan_aside hm (by obtain rfl | ⟨j, rfl⟩ := hq <;> exact Eq.refl none)
  | some r =>
    obtain rfl | ⟨j, rfl⟩ := hq
    · exact .perform (.inr (.inr (.inr ⟨r, rfl, rfl⟩))) (fun _ _ => loan_aside hm trivial)
        fun e _ => trivial
    · exact .perform (.inr (.inr (.inr ⟨r, rfl, rfl⟩))) (fun _ _ => loan_aside hm trivial)
        fun e _ => trivial

theorem loadExistingJob_aside (owner : Uuid) (key hash : String) :
    (loadExistingJob owner key hash).Asks fun o : Op => o.isAside = true ∨ o.leaves = true := by
  refine asks_withUow (.inl rfl) (fun _ => .inr rfl)
    (.bind (.bind (.perform (.inl rfl)) fun _ => trivial)
    fun found => ?_)
  cases found with
  | none => trivial
  | some job => exact .ite trivial trivial

theorem createJob_loan (sha256 : String → String) (settings : Settings) (user : CurrentUserDTO)
    (key : String) (type : JobType) (payload : Json) :
    loan.Obeys (createJob sha256 settings user key type payload) (fun _ q => q.Settled)
    .unasked := by
  have hexit : ∀ {β : Type} {m : Code β} {q : Loan}, loan.Obeys m (fun _ q' => q'.Settled) q →
      loan.Obeys m (Exits loan fun _ q' => q'.Settled) q := fun h => h.mono fun r q' hq => by
    cases r with
    | ok a => exact loan_aside (.bind (.perform (.inr rfl)) fun _ => trivial) hq
    | error e => exact loan_aside (.bind (.perform (.inr rfl)) fun _ => trivial) hq
  unfold createJob
  simp only [Prog.bind_eq, Prog.pure_eq]
  refine .bind ((obeys_withUow (D := loan) (R := fun _ q' => q'.Settled) (q := .unasked) (.inl rfl)
    (fun _ => hexit ?_)
    fun e _ => trivial).mono fun r q hq => ?_)
  · show loan.Obeys _ _ Loan.unasked
    unfold Jobs.getByIdempotencyKey
    simp only [Prog.bind_eq, Prog.pure_eq, Prog.bind_assoc, Prog.ret_bind]
    refine loan_call rfl (fun found => ?_) fun _ => trivial
    cases found with
    | some row =>
      show loan.Obeys ((validateExistingJob _ _).bind _) _ _
      unfold validateExistingJob
      split
      · trivial
      · trivial
    | none =>
      refine .perform (.inr (.inr ⟨user.id, rfl⟩)) (fun r _ => ?_) fun e _ => trivial
      refine .bind (.attempt ((insertJob_loan r _ _ _ _ _ _).mono fun outcome q hq => ?_))
      cases outcome with
      | ok job =>
        obtain ⟨j, rfl⟩ := hq
        exact loan_aside (.bind (notifies_aside (invalidateOwner_notifies _)) fun _ =>
          .bind (notifies_aside (notify_notifies _)) fun _ => trivial) trivial
      | error e =>
        cases e with
        | duplicateJobIdempotencyKey =>
          exact releaseReservation_loan hq (.bind (.perform (.inr rfl)) fun _ => trivial)
        | _ => exact releaseReservation_loan hq trivial
  · cases r with
    | error e => exact hq
    | ok result =>
      cases result with
      | some result => exact hq
      | none => exact loan_aside (.bind (loadExistingJob_aside _ _ _) fun _ => trivial) hq

end JobService

/-! ## The meaning -/

/-- What the states say of a run of `p` from `s`. -/
def Lent (s : Shared) (p : Pid) : Loan → Attempt → Prop
  | .unasked, x => x.shared.core.db = s.core.db ∧ x.obtained = [] ∧ x.released = []
  | .held reservation, x =>
      x.shared.core.db = s.core.db ∧ x.obtained = reservation.toList ∧ x.released = []
  | .inserted reservation j, x =>
      (x.shared.core.db = s.core.db ∧ x.obtained = reservation.toList ∧ x.released = []) ∧
        s.core.db.job j = none ∧ ((x.shared.view p).job j).isSome
  | .created reservation j, x => (x.obtained = reservation.toList ∧ x.released = []) ∧
      s.core.db.job j = none ∧ (x.shared.core.db.job j).isSome
  | .returned reservation, x =>
      x.shared.core.db = s.core.db ∧ x.obtained = [reservation] ∧ x.released = [reservation]

section Run

variable {P : Params} {turns : Nat → Nat × Choice} {p : Pid} {o : Op} {s s' : Shared} {ch : Choice}
  {x y : Attempt} {r : Except Exc o.Ret}

theorem Op.ends_of_isAside (ho : o.isAside = true) : o.ends = false := by
  cases o with
  | commit => cases ho
  | rollback => cases ho
  | aexit raised => cases ho
  | _ => rfl

/-- A row a transaction sees it goes on seeing, while it lasts. -/
theorem exec_view_job {j : Uuid} (he : s.exec P.reads p o ch = some (r, s')) (ho : o.ends = false)
    (hdb : s'.core.db = s.core.db) (hj : ((s.view p).job j).isSome) :
    ((s'.view p).job j).isSome := by
  have hsame : s'.staged p = s.staged p → ((s'.view p).job j).isSome := fun hst => by
    rw [Shared.view, hdb, hst]
    exact hj
  by_cases hw : ∃ st, o = .write st
  · obtain ⟨st, rfl⟩ := hw
    obtain ⟨-, hst⟩ | ⟨-, hst⟩ := exec_write_cases he
    · rw [Shared.view, hdb, hst, Db.applyAll_append]
      obtain ⟨row, hrow⟩ := Option.isSome_iff_exists.mp hj
      obtain ⟨row', hrow', -⟩ := job_applyAll_stays (l := [st]) hrow
      exact Option.isSome_iff_exists.mpr ⟨row', hrow'⟩
    · exact hsame hst
  · exact hsame ((exec_effect he).staged_self ho fun st h => hw ⟨st, h⟩)

/-- An insert matches where the row was not there, or it raises. -/
theorem exec_insertJob_ok {job : Job} {matched : Bool}
    (he : s.exec P.reads p (.write (.insertJob job)) ch = some (.ok matched, s')) :
    matched = true ∧ s.core.db.job job.id = none ∧ ((s'.view p).job job.id).isSome := by
  cases ch with
  | answer =>
    simp only [Shared.exec, Shared.answer] at he
    split at he
    · rename_i hmatch
      obtain ⟨-, -, -, hv⟩ | ⟨row, -, hv⟩ | ⟨orig, -, hv⟩ := outcome_insertJob (s.view p) job
      all_goals rw [hmatch] at hv; cases hv
    · cases he
    · rename_i hmatch
      split at he
      · cases he
        have hnone : (s.view p).job job.id = none := by
          obtain ⟨-, -, hid, -⟩ | ⟨row, -, hv⟩ | ⟨orig, -, hv⟩ := outcome_insertJob (s.view p) job
          · exact hid
          · rw [hmatch] at hv; cases hv
          · rw [hmatch] at hv; cases hv
        refine ⟨rfl, ?_, ?_⟩
        · cases hjob : s.core.db.job job.id with
          | none => rfl
          | some row =>
            obtain ⟨row', hrow', -⟩ := job_applyAll_stays (l := s.staged p) hjob
            rw [Shared.view, hrow'] at hnone
            cases hnone
        · show ((s.core.db.applyAll (Function.update s.staged p
            (s.staged p ++ [.insertJob job]) p)).job
            job.id).isSome
          rw [Function.update_self, Db.applyAll_append]
          show ((Stmt.apply (s.view p) (.insertJob job)).job job.id).isSome
          rw [job_insertJob hnone, if_pos rfl]
          rfl
      · cases he
  | fails text => cases he
  | _ => cases he

theorem Attempt.answer_may (h : answer P turns p o x = some (r, y)) : Loan.May o r := by
  obtain ⟨s, hs, -⟩ := answer_cases h
  cases o with
  | write st =>
    cases st with
    | insertJob job =>
      intro hr
      rw [hr] at hs
      cases (exec_insertJob_ok hs).1
    | _ => trivial
  | _ => trivial

/-- A call that is not a commit leaves what is committed. -/
theorem Attempt.answer_aside (hlate : ∀ i text, (turns i).2 ≠ .failsAfter text)
    (h : answer P turns p o x = some (r, y)) (ho : o.isAside = true ∨ o.leaves = true) :
    y.shared.core.db = x.shared.core.db ∧ y.obtained = x.obtained ∧ y.released = x.released := by
  have hplain : o.commits = false ∧ obtains o r = [] ∧ o.releases = [] := by
    cases o with
    | commit => cases ho with | _ h => cases h
    | reserve user => cases ho with | _ h => cases h
    | releaseReservation reservation => cases ho with | _ h => cases h
    | _ => exact ⟨rfl, rfl, rfl⟩
  have hdb := answer_db hlate h fun hc => by rw [hplain.1] at hc; cases hc
  obtain ⟨s, -, rfl⟩ := answer_cases h
  refine ⟨hdb, ?_, ?_⟩
  · show obtains o r ++ x.obtained = x.obtained
    rw [hplain.2.1]
    rfl
  · show o.releases ++ x.released = x.released
    rw [hplain.2.2]
    rfl

/-- The reservation that is given back is the one that was obtained. -/
theorem Attempt.answer_release (hlate : ∀ i text, (turns i).2 ≠ .failsAfter text)
    {reservation : CreateJobRateLimitReservationDTO} {r : Except Exc Unit}
    (h : answer P turns p (.releaseReservation reservation) x = some (r, y)) :
    y.shared.core.db = x.shared.core.db ∧ y.obtained = x.obtained ∧
    y.released = reservation :: x.released := by
  have hdb := answer_db hlate h fun hc => by cases hc
  obtain ⟨s, -, rfl⟩ := answer_cases h
  exact ⟨hdb, rfl, rfl⟩

/-- The place is asked for. -/
theorem Lent.reserve (hlate : ∀ i text, (turns i).2 ≠ .failsAfter text) {user : Uuid}
    {r : Except Exc (Option CreateJobRateLimitReservationDTO)} (h : Lent s p .unasked x)
    (ho : Attempt.answer P turns p (.reserve user) x = some (r, y)) :
    Lent s p (Loan.unasked.next (.reserve user) r) y := by
  have hdb := Attempt.answer_db hlate ho fun hc => by cases hc
  obtain ⟨s', -, rfl⟩ := Attempt.answer_cases ho
  cases r with
  | ok reservation =>
    refine ⟨hdb.trans h.1, ?_, h.2.2⟩
    show reservation.toList ++ x.obtained = reservation.toList
    rw [h.2.1, List.append_nil]
  | error e => exact ⟨hdb.trans h.1, h.2⟩

/-- The row is inserted, or it is not. -/
theorem Lent.insertJob (hlate : ∀ i text, (turns i).2 ≠ .failsAfter text)
    {reservation : Option CreateJobRateLimitReservationDTO} {job : Job} {r : Except Exc Bool}
    (h : Lent s p (.held reservation) x)
    (ho : Attempt.answer P turns p (.write (.insertJob job)) x = some (r, y)) :
    Lent s p ((Loan.held reservation).next (.write (.insertJob job)) r) y := by
  have hdb := Attempt.answer_db hlate ho fun hc => by cases hc
  obtain ⟨s', hs, rfl⟩ := Attempt.answer_cases ho
  have hheld : Lent s p (.held reservation) (x.note (.write (.insertJob job)) r s') :=
    ⟨hdb.trans h.1, h.2⟩
  cases r with
  | ok matched =>
    obtain ⟨-, hnone, hseen⟩ := exec_insertJob_ok hs
    exact ⟨hheld, h.1 ▸ hnone, hseen⟩
  | error e => exact hheld

/-- The transaction is committed, or it raises and goes on. -/
theorem Lent.commit (hlate : ∀ i text, (turns i).2 ≠ .failsAfter text)
    {reservation : Option CreateJobRateLimitReservationDTO} {j : Uuid} {r : Except Exc Unit}
    (h : Lent s p (.inserted reservation j) x)
    (ho : Attempt.answer P turns p .commit x = some (r, y)) :
    Lent s p ((Loan.inserted reservation j).next .commit r) y := by
  obtain ⟨s', hs, rfl⟩ := Attempt.answer_cases ho
  obtain ⟨hheld, hnone, hseen⟩ := h
  cases hch : (turns x.turn).2 with
  | answer =>
    rw [hch] at hs
    cases hs
    refine ⟨hheld.2, hnone, ?_⟩
    show ((Shared.spend _ p).core.db.job j).isSome
    rw [(Released.release p _).spend.db]
    exact hseen
  | fails text =>
    rw [hch] at hs
    cases hs
    exact ⟨hheld, hnone, hseen⟩
  | failsAfter text => exact absurd hch (hlate _ _)
  | _ =>
    rw [hch] at hs
    cases hs

/-- **One call.** -/
theorem Lent.call (hlate : ∀ i text, (turns i).2 ≠ .failsAfter text) {q : Loan} (h : Lent s p q x)
    (hok : o.isAside = true ∨ o.leaves = true ∨ q.Allows o)
    (ho : Attempt.answer P turns p o x = some (r, y)) : Lent s p (q.next o r) y := by
  rcases hok with haside | hleaves | hallows
  · obtain ⟨hdb, hobtained, hreleased⟩ := Attempt.answer_aside hlate ho (.inl haside)
    rw [Loan.next_aside haside]
    have hseen : ∀ {j}, ((x.shared.view p).job j).isSome → ((y.shared.view p).job j).isSome :=
        fun hj => by
      obtain ⟨s', hs, rfl⟩ := Attempt.answer_cases ho
      exact exec_view_job hs (Op.ends_of_isAside haside) hdb hj
    cases q with
    | inserted reservation j =>
      refine ⟨?_, h.2.1, hseen h.2.2⟩
      rw [hdb, hobtained, hreleased]
      exact h.1
    | _ =>
      simp only [Lent, hdb, hobtained, hreleased] at h ⊢
      exact h
  · obtain ⟨hdb, hobtained, hreleased⟩ := Attempt.answer_aside hlate ho (.inr hleaves)
    rw [Loan.next_leaves hleaves]
    cases q with
    | inserted reservation j =>
      show _ ∧ _
      rw [hdb, hobtained, hreleased]
      exact h.1
    | _ =>
      simp only [Loan.left, Lent, hdb, hobtained, hreleased] at h ⊢
      exact h
  · cases q with
    | unasked =>
      obtain ⟨user, rfl⟩ := hallows
      exact h.reserve hlate ho
    | held reservation =>
      obtain ⟨job, rfl⟩ | ⟨given, rfl, rfl⟩ := hallows
      · exact h.insertJob hlate ho
      · obtain ⟨hdb, hobtained, hreleased⟩ := Attempt.answer_release hlate ho
        exact ⟨hdb.trans h.1, hobtained.trans h.2.1, hreleased.trans (congrArg _ h.2.2)⟩
    | inserted reservation j =>
      obtain rfl | ⟨given, rfl, rfl⟩ := hallows
      · exact h.commit hlate ho
      · obtain ⟨hdb, hobtained, hreleased⟩ := Attempt.answer_release hlate ho
        exact ⟨hdb.trans h.1.1, hobtained.trans h.1.2.1, hreleased.trans (congrArg _ h.1.2.2)⟩
    | created reservation j => cases hallows
    | returned reservation => cases hallows

/-- **A reservation is given back exactly when no job came of it**, and once. -/
theorem reservation_returned_iff (hlate : ∀ i text, (turns i).2 ≠ .failsAfter text)
    {settings : Settings} {user : CurrentUserDTO} {key : String} {type : JobType} {payload : Json}
    {res : Except Exc JobCreateResultDTO}
    (hrun : (JobService.createJob P.sha256 settings user key type payload).drive
      (Attempt.answer P turns p) (.start s) = some (res, y)) :
    y.obtained.length ≤ 1 ∧
      ((∃ j, s.core.db.job j = none ∧ (y.shared.core.db.job j).isSome) → y.released = []) ∧
      ((∀ j, s.core.db.job j = none → y.shared.core.db.job j = none) →
        y.released = y.obtained) := by
  obtain ⟨q, hlent, hq⟩ := (JobService.createJob_loan P.sha256 settings user key type payload).drive
    (I := Lent s p) (fun hI hok ho => ⟨Attempt.answer_may ho, hI.call hlate hok ho⟩)
    ⟨rfl, rfl, rfl⟩ hrun
  have hlength : ∀ r : Option CreateJobRateLimitReservationDTO, r.toList.length ≤ 1 := fun r => by
    cases r <;> simp
  have hsame : y.shared.core.db = s.core.db →
      ¬ ∃ j, s.core.db.job j = none ∧ (y.shared.core.db.job j).isSome :=
      fun hdb ⟨j, hnone, hsome⟩ => by
    rw [hdb, hnone] at hsome
    cases hsome
  cases q with
  | unasked =>
    obtain ⟨hdb, hobtained, hreleased⟩ := hlent
    rw [hobtained, hreleased]
    exact ⟨by decide, fun _ => rfl, fun _ => rfl⟩
  | held r =>
    obtain rfl : r = none := hq
    obtain ⟨hdb, hobtained, hreleased⟩ := hlent
    rw [hobtained, hreleased]
    exact ⟨by decide, fun _ => rfl, fun _ => rfl⟩
  | inserted r j =>
    obtain rfl : r = none := hq
    obtain ⟨⟨hdb, hobtained, hreleased⟩, -⟩ := hlent
    rw [hobtained, hreleased]
    exact ⟨by decide, fun _ => rfl, fun _ => rfl⟩
  | created r j =>
    obtain ⟨⟨hobtained, hreleased⟩, hnone, hsome⟩ := hlent
    rw [hobtained, hreleased]
    refine ⟨hlength r, fun _ => rfl, fun hall => ?_⟩
    rw [hall j hnone] at hsome
    cases hsome
  | returned r =>
    obtain ⟨hdb, hobtained, hreleased⟩ := hlent
    rw [hobtained, hreleased]
    exact ⟨le_rfl, fun hcreated => absurd hcreated (hsame hdb), fun _ => rfl⟩

end Run

/-- The insert of the event raises, after the place was obtained. -/
theorem reservation_returned_iff_event : ∃ res y,
    (JobService.createJob Params.default.sha256 {} ⟨1, .user⟩ "k" .success (.obj [])).drive
      (Attempt.answer .default (creationTurns 12) 0) (.start registered) = some (res, y) ∧
    y.obtained.length = 1 ∧ y.released.length = 1 ∧
    (y.obtained.length ≤ 1 ∧
      ((∃ j, registered.core.db.job j = none ∧ (y.shared.core.db.job j).isSome) → y.released = []) ∧
      ((∀ j, registered.core.db.job j = none → y.shared.core.db.job j = none) →
        y.released = y.obtained)) := by
  have hrun : ((JobService.createJob Params.default.sha256 {} ⟨1, .user⟩ "k" .success
    (.obj [])).drive
      (Attempt.answer .default (creationTurns 12) 0) (.start registered)).map
      (fun z => (z.2.obtained.length, z.2.released.length)) = some (1, 1) := by
    decide +kernel
  obtain ⟨⟨res, y⟩, hrun, hy⟩ := Option.map_eq_some_iff.mp hrun
  rw [Prod.mk.injEq] at hy
  exact ⟨res, y, hrun, hy.1, hy.2, reservation_returned_iff (creationTurns_early 12) hrun⟩

end CloudJob
