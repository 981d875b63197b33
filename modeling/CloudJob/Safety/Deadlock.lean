import CloudJob.Callers
import CloudJob.Contract.Soundness
import CloudJob.Lib.Circle
import CloudJob.Lib.Discipline
import CloudJob.Text

/-!
# `Safety/Deadlock.lean` — who can wait for whom

A claim locks the owner's row and then the job's; recovery locks the jobs of its batch and then
their owners. The two orders can meet, and then each waits for the other. Nothing else can: whoever
else waits either holds nothing yet, or holds rows that nobody who holds anything waits for. So
every party of a deadlock is a recovery, or a claim that waits for a job which a recovery has. -/

set_option autoImplicit false

namespace CloudJob

open Lib

variable {P : Params} {w : World (machine P)} {p q : Pid}

/-- The rows a call waits for while somebody else has them. The selections that skip locked rows
wait for none. -/
def Op.waitsFor (s : Shared) (p : Pid) : Op → List LockRow
  | .selectJobForUpdate id ownerId =>
      if ((s.view p).job id |>.filter fun j => ownerId.all (· == j.ownerId)).isSome then
        [.job id] else []
  | .lockUser id => if id ∈ (s.view p).users then [.user id] else []
  | .write st => match st.outcome (s.view p) with
      | .matched => st.rows
      | _ => []
  | _ => []

/-- What a call answers is drawn from outside. -/
def Op.isDrawn : Op → Bool
  | .now | .uuid4 | .reserve _ => true
  | _ => false

theorem Shared.free_eq_false {s : Shared} {r : LockRow} :
    s.free p r = false ↔ ∃ q, s.locks r = some q ∧ q ≠ p := by
  unfold free
  cases hr : s.locks r with
  | none => simp
  | some q => simp

/-- A call has no answer now where a row it waits for is taken, and only there. -/
theorem answer_eq_none_iff {s : Shared} {o : Op} (ho : o.isDrawn = false) :
    s.answer p o = none ↔ ∃ r ∈ o.waitsFor s p, s.free p r = false := by
  cases o with
  | now => cases ho
  | uuid4 => cases ho
  | reserve user => cases ho
  | selectJobForUpdate id owner =>
    simp only [Shared.answer, Op.waitsFor]
    cases (s.view p).job id |>.filter fun j => owner.all (· == j.ownerId) with
    | none => simp
    | some row => simp
  | lockUser id =>
    simp only [Shared.answer, Op.waitsFor]
    split
    · simp
    · simp
  | write st =>
    simp only [Shared.answer, Op.waitsFor]
    cases st.outcome (s.view p) with
    | matched => simp
    | noMatch => simp
    | violates orig => simp
  | lockUnpublishedEvent id =>
    simp only [Shared.answer, Op.waitsFor]
    split
    · simp
    · split <;> simp
  | _ => simp [Shared.answer, Op.waitsFor]

/-- `p` waits for row `r`, which `q` has. -/
def AwaitsRow (w : World (machine P)) (p q : Pid) (r : LockRow) : Prop :=
  ∃ c o k, w.procs p = some (c, .call o k) ∧ r ∈ o.waitsFor w.shared p ∧
    w.shared.locks r = some q ∧ q ≠ p

/-- `p` waits for a row that `q` has. -/
def Awaits (w : World (machine P)) (p q : Pid) : Prop := ∃ r, AwaitsRow w p q r

/-- A process waits for somebody exactly where its next call has no answer. -/
theorem awaits_iff_blocked {c : Call} {o : Op} {k : Except Exc o.Ret → Code Outcome}
    (hp : w.procs p = some (c, .call o k)) (ho : o.isDrawn = false) :
    (∃ q, Awaits w p q) ↔ (machine P).step (.run p .answer) w = none := by
  have hstep : (machine P).step (.run p .answer) w = none ↔ w.shared.answer p o = none := by
    have hexec : w.shared.exec P.reads p o .answer = w.shared.answer p o := by
      cases o <;> rfl
    simp only [Machine.step, Machine.runStep, hp, hexec]
    cases w.shared.answer p o <;> simp
  rw [hstep, answer_eq_none_iff ho]
  constructor
  · rintro ⟨q, r, c', o', k', hp', hr, hq, hne⟩
    rw [hp] at hp'
    cases hp'
    exact ⟨r, hr, Shared.free_eq_false.mpr ⟨q, hq, hne⟩⟩
  · rintro ⟨r, hr, hfree⟩
    obtain ⟨q, hq, hne⟩ := Shared.free_eq_false.mp hfree
    exact ⟨q, r, c, o, k, hp, hr, hq, hne⟩

/-- Process `p` is a recovery. -/
def Recovers (w : World (machine P)) (p : Pid) : Prop :=
  ∃ settings, w.shared.calls p = some (.recoverDueBatchOnce settings)

/-- **Who waits.** Whoever holds nothing; a recovery, for an owner; and whoever holds events only or
users only, for a job. -/
theorem Awaits.cases (h : Reachable P w) (hpq : Awaits w p q) :
    w.shared.HoldsNothing p ∨ (Recovers w p ∧ ∃ o, AwaitsRow w p q (.user o)) ∨
      ∃ j, AwaitsRow w p q (.job j) ∧
        ((∀ r, w.shared.locks r = some p → ∃ e, r = .event e) ∨ ∀ r, w.shared.locks r = some p →
          ∃ o, r = .user o) ∧
        ∀ o, w.shared.locks (.user o) = some p → ∃ m, w.shared.handling p = some m ∧ m.IsFor j := by
  obtain ⟨r, hrow⟩ := hpq
  obtain ⟨c, o, k, hp, hr, hq, hne⟩ := id hrow
  have hpre := h.pre hp
  cases o with
  | selectJobForUpdate id owner =>
    simp only [Op.waitsFor] at hr
    split at hr
    · cases List.mem_singleton.mp hr
      exact .inr (.inr ⟨id, hrow, hpre.1, hpre.2.2⟩)
    · cases hr
  | lockUser id =>
    simp only [Op.waitsFor] at hr
    split at hr
    · cases List.mem_singleton.mp hr
      obtain ⟨hnothing, -⟩ | ⟨hrecovers, -⟩ := hpre
      · exact .inl hnothing
      · exact .inr (.inl ⟨hrecovers, id, hrow⟩)
    · cases hr
  | write st =>
    simp only [Op.waitsFor] at hr
    split at hr
    · obtain hfree | hnothing := hpre.2.1
      · have htaken : w.shared.free p r = false := Shared.free_eq_false.mpr ⟨q, hq, hne⟩
        rw [hfree r hr] at htaken
        cases htaken
      · exact .inl hnothing
    · cases hr
  | _ => cases hr

/-- Who holds a row that somebody waits for holds something. -/
theorem Awaits.not_holdsNothing (hpq : Awaits w p q) : ¬ w.shared.HoldsNothing q := by
  obtain ⟨r, c, o, k, -, -, hq, -⟩ := hpq
  exact fun hnothing => hnothing r hq

/-- In a deadlock a recovery waits for an owner, or a worker that has the owner waits, for the job of
its message, for a recovery. -/
theorem Awaits.parties (h : Reachable P w) (hpq : OnCircle (Awaits w) p q) :
    (Recovers w p ∧ ∃ o, AwaitsRow w p q (.user o)) ∨
    ∃ m j o, w.shared.handling p = some m ∧ m.IsFor j ∧ w.shared.locks (.user o) = some p ∧
      AwaitsRow w p q (.job j) ∧ Recovers w q := by
  obtain ⟨⟨z, hzp⟩, x, hqx⟩ := hpq.round
  obtain ⟨⟨y, hyz⟩, -⟩ := hzp.round
  obtain hnothing | hrecovers | ⟨j, hj, hkinds, hfor⟩ := hpq.1.cases h
  · exact absurd hnothing hzp.1.not_holdsNothing
  · exact .inl hrecovers
  · have hnojob : ∀ {z' p' j'}, ((∀ r, w.shared.locks r = some p' → ∃ e, r = .event e) ∨
        ∀ r, w.shared.locks r = some p' → ∃ o, r = .user o) → ¬ AwaitsRow w z' p' (.job j') := by
      rintro z' p' j' hkinds ⟨_, _, _, -, -, hjob, -⟩
      obtain hevents | husers := hkinds
      · obtain ⟨e, he⟩ := hevents _ hjob
        cases he
      · obtain ⟨o, ho⟩ := husers _ hjob
        cases ho
    have howner : ∃ o, w.shared.locks (.user o) = some p := by
      obtain hnothing | ⟨-, o, _, _, _, -, -, ho, -⟩ | ⟨j', hj', -, -⟩ := hzp.1.cases h
      · exact absurd hnothing hyz.1.not_holdsNothing
      · exact ⟨o, ho⟩
      · exact absurd hj' (hnojob hkinds)
    have hrecovers : Recovers w q := by
      obtain hnothing | ⟨hrecovers, -⟩ | ⟨j', -, hkinds', -⟩ := hqx.1.cases h
      · exact absurd hnothing hpq.1.not_holdsNothing
      · exact hrecovers
      · exact absurd hj (hnojob hkinds')
    obtain ⟨o, ho⟩ := howner
    obtain ⟨m, hm, hmfor⟩ := hfor o ho
    exact .inr ⟨m, j, o, hm, hmfor, ho, hj, hrecovers⟩

/-! ## What a call takes -/

/-- What recovery takes: the expired jobs that nobody else has, up to its limit. -/
def Shared.batch (s : Shared) (p : Pid) (now : Datetime) (limit : Nat) : List Job :=
  (((s.view p).expiredRunning now).filter fun row => s.free p (.job row.id)).take limit

/-- The rows a call gives its process, where it is answered. -/
def Op.takes (s : Shared) (p : Pid) : Op → List LockRow
  | .selectJobForUpdate id _ => [.job id]
  | .lockUser id => if id ∈ (s.view p).users then [.user id] else []
  | .lockExpiredJobs t limit => (s.batch p t limit).map fun row => .job row.id
  | .lockDueEvents t limit =>
      ((((s.view p).dueEvents t).filter fun ev => s.free p (.event ev.id)).take limit).map
        fun ev => .event ev.id
  | .lockUnpublishedEvent id => [.event id]
  | .write st => st.rows
  | _ => []

/-- What a process has after its call, it had before or the call gave it. -/
theorem exec_takes {reads : Datetime → Datetime → Bool} {s s' : Shared} {o : Op} {ch : Choice}
    {r : Except Exc o.Ret} (he : s.exec reads p o ch = some (r, s')) {x : LockRow}
    (hl : s'.locks x = some p) :
    s.locks x = some p ∨ ch = .answer ∧ x ∈ o.takes s p := by
  have hlock : ∀ {rs : List LockRow}, rs = o.takes s p → (s.lock p rs).locks x = some p →
      s.locks x = some p ∨ Choice.answer = .answer ∧ x ∈ o.takes s p := fun hrs hl =>
    (Shared.locks_lock_self.mp hl).symm.imp_right fun hx => ⟨rfl, hrs ▸ hx⟩
  have hspend : ∀ y : Shared, (y.spend p).locks = y.locks := fun y => by
    obtain hsp | ⟨m, -, hsp⟩ := y.spend_cases p <;> rw [hsp]
  have hrelease : ∀ {y : Shared}, (y.release p).locks x = some p → False := fun hl =>
    absurd hl (Shared.locks_release_self _)
  cases ch with
  | answer =>
    cases o with
    | selectJobForUpdate id owner =>
      simp only [Shared.exec, Shared.answer] at he
      split at he
      · cases he
        exact .inl hl
      · split at he
        · cases he
          exact hlock rfl hl
        · cases he
    | lockUser id =>
      simp only [Shared.exec, Shared.answer] at he
      split at he
      · rename_i hmem
        split at he
        · cases he
          have htakes : [.user id] = (Op.lockUser id).takes s p := (if_pos hmem).symm
          exact hlock htakes hl
        · cases he
      · cases he
        exact .inl hl
    | lockExpiredJobs now limit =>
      cases he
      exact hlock rfl hl
    | lockDueEvents now limit =>
      cases he
      exact hlock rfl hl
    | lockUnpublishedEvent id =>
      simp only [Shared.exec, Shared.answer] at he
      split at he
      · cases he
        exact .inl hl
      · split at he
        · cases he
          exact hlock rfl hl
        · cases he
          exact .inl hl
    | write st =>
      simp only [Shared.exec, Shared.answer] at he
      split at he
      · cases he
        exact .inl hl
      · cases he
        exact .inl hl
      · split at he
        · cases he
          exact hlock rfl hl
        · cases he
    | commit =>
      cases he
      rw [hspend] at hl
      exact (hrelease hl).elim
    | rollback =>
      cases he
      exact (hrelease hl).elim
    | aexit raised =>
      cases he
      cases raised with
      | true => exact (hrelease hl).elim
      | false =>
        change ((s.release p).spend p).locks x = some p at hl
        rw [hspend] at hl
        exact (hrelease hl).elim
    | now => cases he
    | uuid4 => cases he
    | reserve user => cases he
    | _ =>
      cases he
      exact .inl hl
  | fails text =>
    obtain ⟨e, -, heq⟩ := Option.map_eq_some_iff.mp he
    cases heq
    cases o with
    | rollback => exact (hrelease hl).elim
    | aexit raised => exact (hrelease hl).elim
    | _ => exact .inl hl
  | failsAfter text =>
    cases o with
    | commit =>
      cases he
      exact (hrelease hl).elim
    | publishDispatch m =>
      cases he
      exact .inl hl
    | _ => cases he
  | time t =>
    cases o with
    | now =>
      simp only [Shared.exec] at he
      split at he
      · cases he
        exact .inl hl
      · cases he
    | _ => cases he
  | uuid u =>
    cases o with
    | uuid4 =>
      simp only [Shared.exec] at he
      split at he
      · cases he
        exact .inl hl
      · cases he
    | _ => cases he
  | reservation res =>
    cases o with
    | reserve user =>
      cases he
      exact .inl hl
    | _ => cases he

/-- Only the owner's own lock takes an owner's row. -/
theorem Op.takes_user {s : Shared} {o : Op} {u : Uuid} (h : .user u ∈ o.takes s p) :
    o = .lockUser u ∧ u ∈ (s.view p).users := by
  cases o with
  | lockUser id =>
    simp only [takes] at h
    split at h
    · cases List.mem_singleton.mp h
      exact ⟨rfl, ‹_›⟩
    · cases h
  | lockExpiredJobs t limit | lockDueEvents t limit =>
    obtain ⟨_, -, heq⟩ := List.mem_map.mp h
    cases heq
  | write st => cases st <;> simp [takes, Stmt.rows] at h
  | _ => simp [takes] at h

/-! ## Where a worker has an owner -/

/-- Whether a unit of work has been left, and no owner locked since. -/
@[reducible] def leaving : Discipline sig where
  State := Bool
  ok _ _ := True
  may _ _ _ := True
  next q o _ := match o with
    | .aexit _ => true
    | .lockUser _ => false
    | _ => q

/-- A claim that returns has left its unit of work. -/
def HasLeft (r : Except Exc (Option ExecutionClaim)) (q : Bool) : Prop := ∀ a, r = .ok a → q = true

theorem hasLeft_error (e : Exc) (q : Bool) : HasLeft (.error e) q := fun _ h => by cases h

theorem claimExecution_leaving (w : JobWorker) (d : DispatchOutboxMessage) :
    leaving.Obeys (JobWorker.claimExecution w d) HasLeft false := by
  have hany : ∀ (m : Code (Option ExecutionClaim)) (q : Bool),
      leaving.Obeys m (fun _ _ => True) q :=
    fun m q => Discipline.Obeys.of_asks (D := leaving) (I := fun _ => True)
      ((Prog.Asks.of_true m).mono fun _ _ _ _ => ⟨trivial, fun _ => trivial⟩) trivial
  unfold JobWorker.claimExecution utcNow uuid4
  simp only [Prog.bind_eq]
  refine .perform trivial (fun now _ => .perform trivial
    (fun token _ => obeys_withUow trivial (fun _ => ?_)
    fun e _ => hasLeft_error e _) fun e _ => hasLeft_error e _) fun e _ => hasLeft_error e _
  refine (hany _ _).mono fun r q _ => ?_
  cases r with
  | ok a => exact .perform trivial (fun _ _ _ _ => rfl) fun e _ => hasLeft_error e _
  | error e => exact .perform trivial (fun _ _ => hasLeft_error e _) fun e _ => hasLeft_error e _

/-- No owner's row is locked by `p`. -/
def Ownerless (s : Shared) (p : Pid) : Prop := ∀ u, s.locks (.user u) ≠ some p

theorem Ownerless.exec {reads : Datetime → Datetime → Bool} {s s' : Shared} {o : Op} {ch : Choice}
    {r : Except Exc o.Ret} (h : Ownerless s p) (he : s.exec reads p o ch = some (r, s'))
    (ho : ∀ id, o ≠ .lockUser id) : Ownerless s' p := by
  intro u hl
  rcases exec_takes he hl with hl | ⟨-, hx⟩
  · exact h u hl
  · exact ho u (Op.takes_user hx).1

theorem ownerless_aexit {reads : Datetime → Datetime → Bool} {s s' : Shared}
    {raised : Bool} {ch : Choice}
    {r : Except Exc Unit} (he : s.exec reads p (.aexit raised) ch = some (r, s')) :
    Ownerless s' p := by
  have hrelease : ∀ {x : Shared}, x.locks = (s.release p).locks → Ownerless x p := fun hx u hl =>
    s.locks_release_self (.user u) (hx ▸ hl)
  cases ch with
  | answer =>
    cases he
    cases raised with
    | true => exact hrelease rfl
    | false =>
      refine hrelease ?_
      show ((s.release p).spend p).locks = _
      obtain hsp | ⟨m, -, hsp⟩ := (s.release p).spend_cases p
      · rw [hsp]
      · rw [hsp]
  | fails text =>
    cases he
    exact hrelease rfl
  | _ => cases he

/-- Process `p` is in `_claim_execution` of the message: `rest` is what is left of it. -/
def InClaim (w : World (machine P)) (p : Pid) (settings : Settings) (workerId : String)
    (m : Message) : Prop :=
  ∃ d w₁ rest, m.body = .dispatch d ∧
    w₁.procs p = some (.handleMessage settings workerId m,
      Call.prog P (.handleMessage settings workerId m)) ∧
    Inside (machine P) p (JobWorker.claimExecution ⟨settings, workerId, P.handlerRegistry⟩ d) w₁
    rest w

/-- **A worker has an owner's row in its claim only**: it leaves the claim without one, and locks no
owner afterwards. -/
theorem Reachable.inClaim (h : Reachable P w) {settings : Settings} {workerId : String}
    {m : Message} {j : Uuid} (hm : m.IsFor j) {o : Op} {k : Except Exc o.Ret → Code Outcome}
    (hp : w.procs p = some (.handleMessage settings workerId m, .call o k)) {u : Uuid}
    (hu : w.shared.locks (.user u) = some p) : InClaim w p settings workerId m := by
  obtain ⟨id, body⟩ := m
  obtain ⟨d, rfl, -⟩ := hm
  obtain ⟨rest, hprog, hrest⟩ : ∃ rest : Option ExecutionClaim → Code Outcome,
      Call.prog P (.handleMessage settings workerId ⟨id, .dispatch d⟩) =
        (JobWorker.claimExecution ⟨settings, workerId, P.handlerRegistry⟩ d).bind rest ∧
      ∀ claim, (rest claim).Asks fun o : Op => ∀ u, o ≠ .lockUser u := by
    refine ⟨_, Prog.bind_assoc .., fun claim => .bind ?_ fun _ => trivial⟩
    cases claim with
    | none => exact .perform fun u heq => by cases heq
    | some claim =>
      refine .bind ((JobWorker.executeClaim_executes _ claim).mono fun o ho u heq => ?_) fun _ =>
        .perform fun u heq => by cases heq
      rw [heq] at ho
      cases ho
  have hsplit := Inside.inside_or (M := machine P) (p := p)
    (Q := fun n s => ∃ q, leaving.Obeys n HasLeft q ∧ (q = true → Ownerless s p))
    (J := fun n s => Prog.Asks (S := sig) (fun o => ∀ u, o ≠ Op.lockUser u) n ∧
      ∀ o f, n = .call o f → Ownerless s p)
    hprog rfl
    (fun s s' _ => ⟨false, claimExecution_leaving _ d, fun hq => by cases hq⟩)
    (fun o f ch s r s' hQ he => ?_) (fun a s hQ => ?_)
      (fun e s => ⟨trivial, fun _ _ heq => by cases heq⟩)
    (fun o f ch s r s' hJ he => ⟨hJ.1.2 r, fun _ _ _ => (hJ.2 o f rfl).exec he hJ.1.1⟩)
    (fun mv w₁ w₂ hreach hpid hs => ?_) h hp
  · obtain ⟨w₁, n, hin, hbegan, -⟩ | ⟨-, hnone⟩ := hsplit
    · exact ⟨d, w₁, n, rfl, hprog ▸ hbegan, hin⟩
    · exact absurd hu (hnone o k rfl u)
  · obtain ⟨q, hobeys, hq⟩ := hQ
    refine ⟨_, hobeys.2 r trivial, fun hnext => ?_⟩
    cases o with
    | aexit raised => exact ownerless_aexit he
    | lockUser u => cases hnext
    | _ => exact (hq hnext).exec he fun _ heq => by cases heq
  · obtain ⟨q, hobeys, hq⟩ := hQ
    exact ⟨hrest a, fun _ _ _ => hq (hobeys a rfl)⟩
  · have hrely := Reachable.rely hreach hs hpid
    have hkeeps : Ownerless w₁.shared p → Ownerless w₂.shared p := fun hno u hl =>
      hno u ((hrely.locks _).mp hl)
    exact ⟨fun n ⟨q, hobeys, hq⟩ => ⟨q, hobeys, fun ht => hkeeps (hq ht)⟩,
      fun n hJ => ⟨hJ.1, fun o f heq => hkeeps (hJ.2 o f heq)⟩⟩

/-! ## The parties -/

/-- **The parties of a deadlock.** Each is a recovery that waits for an owner, or a worker in
`_claim_execution` that has the owner and waits, for the job of its message, for a recovery. -/
theorem deadlock_parties (h : Reachable P w) (hpq : Awaits w p q)
    (hback : Relation.ReflTransGen (Awaits w) q p) :
    (Recovers w p ∧ ∃ o, AwaitsRow w p q (.user o)) ∨
    ∃ settings workerId m j o, w.shared.calls p = some (.handleMessage settings workerId m) ∧
    m.IsFor j ∧
      InClaim w p settings workerId m ∧ w.shared.locks (.user o) = some p ∧
      AwaitsRow w p q (.job j) ∧ Recovers w q := by
  obtain hrecovers | ⟨m, j, o, hm, hmfor, ho, hj, hrecovers⟩ := Awaits.parties h ⟨hpq, hback⟩
  · exact .inl hrecovers
  · obtain ⟨c, o', k, hp, -⟩ := id hj
    have hcalls := h.calls hp
    unfold Shared.handling at hm
    rw [hcalls] at hm
    cases c with
    | handleMessage settings workerId m' =>
      cases hm
      exact .inr ⟨settings, workerId, m, j, o, hcalls, hmfor, h.inClaim hmfor hp ho, ho, hj,
        hrecovers⟩
    | _ => cases hm

/-- The next call of a process, as far as it waits. -/
def World.taken (w : World (machine P)) (p : Pid) : List LockRow :=
  match w.procs p with
  | some (_, .call o _) => o.waitsFor w.shared p
  | _ => []

theorem awaits_of_taken {r : LockRow} (hr : r ∈ World.taken w p) (hq : w.shared.locks r = some q)
    (hne : q ≠ p) : Awaits w p q := by
  unfold World.taken at hr
  split at hr
  · exact ⟨r, _, _, _, ‹_›, hr, hq, hne⟩
  · cases hr

/-- The claim of a redelivered message has the owner, recovery has the job, whose lease has
expired. -/
def deadlockMoves : List (Move (machine P)) :=
  claimedMoves ++ [.env (.tick 61000000), .start 3
    (.handleMessage {} "w" ⟨0, .dispatch ⟨11, 10, 0⟩⟩),
    .run 3 (.time 61000000), .run 3 (.uuid 21)] ++ answers 3 3 ++
    [.start 4 (.recoverDueBatchOnce {}), .run 4 (.time 61000000)] ++ answers 4 2

/-- Each waits for the other. -/
theorem awaits_each_other : ∃ w : World (machine .default), Reachable .default w ∧
    Awaits w 3 4 ∧ Awaits w 4 3 := by
  have hrun : ((machine .default).run deadlockMoves (World.init .default)).map (fun w =>
      (World.taken w 3, w.shared.locks (.job 10), World.taken w 4, w.shared.locks (.user 1))) =
      some ([.job 10], some 4, [.user 1], some 3) := by
    decide +kernel
  obtain ⟨w, hw, hlocks⟩ := Option.map_eq_some_iff.mp hrun
  simp only [Prod.mk.injEq] at hlocks
  obtain ⟨h3, hjob, h4, huser⟩ := hlocks
  exact ⟨w, .of_run hw,
    awaits_of_taken (r := .job 10) (by rw [h3]; exact List.mem_singleton_self _) hjob (by decide),
    awaits_of_taken (r := .user 1) (by rw [h4]; exact List.mem_singleton_self _) huser (by decide)⟩

theorem deadlock_parties_redelivered : ∃ w : World (machine .default), Reachable .default w ∧
    Awaits w 3 4 ∧ Awaits w 4 3 ∧
    ((Recovers w 3 ∧ ∃ o, AwaitsRow w 3 4 (.user o)) ∨
    ∃ settings workerId m j o, w.shared.calls 3 = some (.handleMessage settings workerId m) ∧
    m.IsFor j ∧
      InClaim w 3 settings workerId m ∧ w.shared.locks (.user o) = some 3 ∧
      AwaitsRow w 3 4 (.job j) ∧ Recovers w 4) := by
  obtain ⟨w, hw, hawaits, hawaits'⟩ := awaits_each_other
  exact ⟨w, hw, hawaits, hawaits', deadlock_parties hw hawaits (.single hawaits')⟩

end CloudJob
