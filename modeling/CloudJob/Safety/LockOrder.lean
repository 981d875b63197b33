import CloudJob.Safety.Deadlock

/-!
# `Safety/LockOrder.lean` — when nobody is deadlocked

The two orders of `Safety/Deadlock.lean` cross where a claim has the owner's row and a recovery the
job's, and recoveries cross among themselves, because each takes the owners of its batch in the
order of the leases. `keepsLockOrder` is the check the code lacks: a claim does not take the owner
of a job that a recovery has, a recovery takes no job whose claim already has the owner, and no
recovery takes an owner's row that would leave it both waited for and waiting.

Where every step passes it, no claim is ever across a recovery (`Uncrossed`), and the relation "has
a job of an owner whose row is with" among the recoveries (`Shared.Heads`) has no circle: a step
that adds to it passes the check, so what it adds begins where nothing ends or ends where nothing
begins. A deadlock would be such a circle. -/

set_option autoImplicit false

namespace CloudJob

open Lib

variable {P : Params} {w w' : World (machine P)} {mv : Move (machine P)} {p q : Pid}

/-! ## The check -/

namespace Shared

variable (s : Shared)

/-- Process `p` is a recovery. -/
def recovers (p : Pid) : Bool :=
  match s.calls p with
  | some (.recoverDueBatchOnce _) => true
  | _ => false

/-- Process `p` handles a message of job `j`. -/
def handles (p : Pid) (j : Uuid) : Bool :=
  match (s.handling p).map Message.body with
  | some (.dispatch d) => d.jobId == j
  | _ => false

/-- Process `p` has the row of an owner. -/
def hasOwner (p : Pid) : Bool := s.core.db.users.any fun u => s.locks (.user u) == some p

/-- A claim of job `j` has the row of an owner. -/
def isClaimed (j : Uuid) : Bool :=
  s.core.db.users.any fun u => (s.locks (.user u)).any fun q => s.handles q j

/-- A recovery has the row of job `j`. -/
def isRecovered (j : Uuid) : Bool := (s.locks (.job j)).any s.recovers

/-- A recovery other than `p`, which already has the row of an owner, has a job of owner `u`. -/
def isWanted (p : Pid) (u : Uuid) : Bool :=
  s.core.db.jobs.rows.any fun row => row.ownerId == u &&
    (s.locks (.job row.id)).any fun q => q != p && s.recovers q && s.hasOwner q

/-- Process `p` has a job of an owner whose row a recovery other than `p` has. -/
def mustWait (p : Pid) : Bool :=
  s.core.db.jobs.rows.any fun row => s.locks (.job row.id) == some p &&
    (s.locks (.user row.ownerId)).any fun q => q != p && s.recovers q

/-- The check, before process `p` makes a call. -/
def inOrder (p : Pid) : Op → Bool
  | .lockUser u => match (s.handling p).map Message.body with
    | some (.dispatch d) => !s.isRecovered d.jobId
    | _ => !(s.isWanted p u && s.mustWait p)
  | .lockExpiredJobs now limit => (s.batch p now limit).all fun row => !s.isClaimed row.id
  | _ => true

end Shared

def keepsLockOrder (w : World (machine P)) : Move (machine P) → Bool
  | .run p .answer => match w.procs p with
    | some (_, .call o _) => w.shared.inOrder p o
    | _ => true
  | _ => true

/-! ## Who has what after a step -/

theorem Shared.recovers_iff {s : Shared} :
    s.recovers p = true ↔ ∃ settings, s.calls p = some (.recoverDueBatchOnce settings) := by
  unfold recovers
  split
  · rename_i settings hc
    exact ⟨fun _ => ⟨settings, hc⟩, fun _ => rfl⟩
  · rename_i hno
    exact ⟨nofun, fun ⟨settings, hc⟩ => absurd hc (hno settings)⟩

theorem Shared.handles_iff {s : Shared} {j : Uuid} :
    s.handles p j = true ↔ ∃ m, s.handling p = some m ∧ m.IsFor j := by
  unfold handles
  constructor
  · intro hj
    split at hj
    · rename_i d hd
      obtain ⟨m, hm, hbody⟩ := Option.map_eq_some_iff.mp hd
      exact ⟨m, hm, d, hbody, beq_iff_eq.mp hj⟩
    · cases hj
  · rintro ⟨m, hm, d, hbody, hj⟩
    rw [hm, Option.map_some, hbody]
    exact beq_iff_eq.mpr hj

/-- A recovery handles no message. -/
theorem Shared.handling_of_recovers {s : Shared} (h : s.recovers p = true) :
    s.handling p = none := by
  obtain ⟨settings, hc⟩ := Shared.recovers_iff.mp h
  rw [Shared.handling, hc]

theorem Shared.hasOwner_iff {s : Shared} :
    s.hasOwner p = true ↔ ∃ u ∈ s.core.db.users, s.locks (.user u) = some p := by
  simp [hasOwner]

theorem Shared.isClaimed_iff {s : Shared} {j : Uuid} : s.isClaimed j = true ↔
    ∃ u ∈ s.core.db.users, ∃ q, s.locks (.user u) = some q ∧ s.handles q j = true := by
  simp [isClaimed, Option.any_eq_true]

theorem Shared.isRecovered_iff {s : Shared} {j : Uuid} :
    s.isRecovered j = true ↔ ∃ q, s.locks (.job j) = some q ∧ s.recovers q = true := by
  simp [isRecovered, Option.any_eq_true]

/-- Who has a row after a step was started before it. -/
theorem step_calls_of_holds (hs : (machine P).step mv w = some w') {r : LockRow}
    (hl : w'.shared.locks r = some p) : w'.shared.calls p = w.shared.calls p := by
  rcases Machine.step_cases hs with ⟨q, c, s, rfl, -, hst, rfl⟩ |
    ⟨q, ch, c, o, k, r', s, rfl, -, he, rfl⟩ | ⟨q, c, prog, rfl, -, rfl⟩ | ⟨e, s, rfl, he, rfl⟩
  · simp only [Shared.start] at hst
    split at hst
    · cases hst
      refine Function.update_of_ne ?_ ..
      rintro rfl
      exact absurd hl (Shared.locks_release_self _)
    · cases hst
  · exact congrFun (exec_effect he).calls p
  · rfl
  · obtain ⟨c', -, rfl⟩ := Option.map_eq_some_iff.mp he
    rfl

theorem Shared.recovers_congr {s s' : Shared} (h : s'.calls p = s.calls p) :
    s'.recovers p = s.recovers p := by rw [recovers, recovers, h]

theorem Shared.handles_congr {s s' : Shared} (h : s'.calls p = s.calls p) (j : Uuid) :
    s'.handles p j = s.handles p j := by rw [handles, handles, handling, handling, h]

/-- A row that a process has after a step it had before, or its call has just given it. -/
theorem Reachable.takes_cases (h : Reachable P w) (hs : (machine P).step mv w = some w')
    {x : LockRow} (hl : w'.shared.locks x = some p) : w.shared.locks x = some p ∨
      ∃ c o k, mv = .run p .answer ∧ w.procs p = some (c, .call o k) ∧ x ∈ o.takes w.shared p := by
  by_cases hpid : mv.pid = some p
  · rcases Machine.step_cases hs with ⟨q, c, s, rfl, -, hst, rfl⟩ |
      ⟨q, ch, c, o, k, r, s, rfl, hp, he, rfl⟩ | ⟨q, c, prog, rfl, -, rfl⟩ | ⟨e, s, rfl, he, rfl⟩
    · cases hpid
      simp only [Shared.start] at hst
      split at hst
      · cases hst
        exact absurd hl (Shared.locks_release_self _)
      · cases hst
    · cases hpid
      rcases exec_takes he hl with hl | ⟨rfl, hx⟩
      · exact .inl hl
      · exact .inr ⟨c, o, k, rfl, hp, hx⟩
    · cases hpid
      exact absurd hl (Shared.locks_release_self _)
    · cases hpid
  · exact .inl (((h.rely hs hpid).locks x).mp hl)

/-- A job that is locked after a step has kept its row. -/
theorem Reachable.row_of_holds (h : Reachable P w) (hs : (machine P).step mv w = some w')
    {j : Uuid} (hl : w'.shared.locks (.job j) = some p) :
    w'.shared.core.db.job j = w.shared.core.db.job j := by
  by_cases hpid : mv.pid = some p
  · rcases Machine.step_cases hs with ⟨q, c, s, rfl, -, hst, rfl⟩ |
      ⟨q, ch, c, o, k, r, s, rfl, hp, he, rfl⟩ | ⟨q, c, prog, rfl, -, rfl⟩ | ⟨e, s, rfl, he, rfl⟩
    · simp only [Shared.start] at hst
      split at hst
      · cases hst
        rfl
      · cases hst
    · cases hpid
      cases exec_effect he with
      | committed => exact absurd hl (Shared.locks_release_self _)
      | committedAnswered =>
        obtain hsp | ⟨m, -, hsp⟩ := Shared.spend_cases
          ({ w.shared with core := w.shared.core.commit p (w.shared.staged p) }.release p) p
        · rw [hsp] at hl
          exact absurd hl (Shared.locks_release_self _)
        · rw [hsp] at hl
          exact absurd hl (Shared.locks_release_self _)
      | left =>
        show (((w.shared.release p).spend p).core.db).job j = _
        rw [(Core.spend_same (w.shared.release p) p).1]
        rfl
      | _ => rfl
    · rfl
    · cases hpid
  · have hrely := h.rely hs hpid
    exact hrely.keeps.job ((hrely.locks _).mp hl)

theorem Op.takes_job {s : Shared} {o : Op} {j : Uuid} (h : .job j ∈ o.takes s p) :
    (∃ owner, o = .selectJobForUpdate j owner) ∨
    (∃ t limit, o = .lockExpiredJobs t limit ∧ ∃ row ∈ s.batch p t limit, row.id = j) ∨
    ∃ st, o = .write st ∧ .job j ∈ st.rows := by
  cases o with
  | selectJobForUpdate id owner =>
    cases List.mem_singleton.mp h
    exact .inl ⟨owner, rfl⟩
  | lockExpiredJobs t limit =>
    obtain ⟨row, hrow, heq⟩ := List.mem_map.mp h
    cases heq
    exact .inr (.inl ⟨t, limit, rfl, row, hrow, rfl⟩)
  | write st => exact .inr (.inr ⟨st, rfl, h⟩)
  | lockUser id =>
    simp only [takes] at h
    split at h <;> simp at h
  | lockDueEvents t limit =>
    obtain ⟨_, -, heq⟩ := List.mem_map.mp h
    cases heq
  | _ => simp [takes] at h

/-- A recovery takes its jobs when it has nothing yet. -/
theorem Reachable.batch_cases (h : Reachable P w) (hs : (machine P).step mv w = some w') {j : Uuid}
    (hrec : w'.shared.recovers p = true) (hl : w'.shared.locks (.job j) = some p) :
    w.shared.locks (.job j) = some p ∨ ∃ c t limit k, mv = .run p .answer ∧
      w.procs p = some (c, .call (.lockExpiredJobs t limit) k) ∧
      (∃ row ∈ w.shared.batch p t limit, row.id = j) ∧ ∀ u, w'.shared.locks (.user u) ≠ some p := by
  obtain ⟨settings, hcall⟩ := Shared.recovers_iff.mp hrec
  rw [step_calls_of_holds hs hl] at hcall
  rcases h.takes_cases hs hl with hl | ⟨c, o, k, hmv, hp, hx⟩
  · exact .inl hl
  · have hpre := h.pre hp
    rcases Op.takes_job hx with ⟨owner, rfl⟩ | ⟨t, limit, rfl, hrow⟩ | ⟨st, rfl, hrows⟩
    · exact absurd hcall (hpre.2.1 settings)
    · refine .inr ⟨c, t, limit, k, hmv, hp, hrow, fun u hu => ?_⟩
      rcases h.takes_cases hs hu with hu | ⟨c', o', k', -, hp', hx'⟩
      · exact hpre _ hu
      · rw [hp] at hp'
        cases hp'
        cases (Op.takes_user hx').1
    · exact .inl (hpre.2.2.2 j settings hrows hcall)

/-- Only its own lock gives a process the row of an owner. -/
theorem Reachable.owner_cases (h : Reachable P w) (hs : (machine P).step mv w = some w') {u : Uuid}
    (hl : w'.shared.locks (.user u) = some p) :
    w.shared.locks (.user u) = some p ∨ ∃ c k, mv = .run p .answer ∧
      w.procs p = some (c, .call (.lockUser u) k) ∧ u ∈ w.shared.core.db.users := by
  rcases h.takes_cases hs hl with hl | ⟨c, o, k, hmv, hp, hx⟩
  · exact .inl hl
  · obtain ⟨rfl, hmem⟩ := Op.takes_user hx
    rw [Shared.view, Db.users_applyAll] at hmem
    exact .inr ⟨c, k, hmv, hp, hmem⟩

/-! ## Claims and recoveries -/

/-- No claim that has an owner's row is for a job that a recovery has. -/
structure Shared.Uncrossed (s : Shared) : Prop where
  known : ∀ {u : Uuid} {q : Pid}, s.locks (.user u) = some q → u ∈ s.core.db.users
  apart : ∀ {j u : Uuid} {q : Pid}, s.locks (.user u) = some q → s.handles q j = true →
    s.isRecovered j = false

theorem Shared.Uncrossed.step (hun : w.shared.Uncrossed) (h : Reachable P w)
    (hok : keepsLockOrder w mv = true) (hs : (machine P).step mv w = some w') :
    w'.shared.Uncrossed where
  known hl := by
    rcases h.owner_cases hs hl with hl | ⟨_, _, -, -, hmem⟩
    · exact (h.extends hs).users _ (hun.known hl)
    · exact (h.extends hs).users _ hmem
  apart {j u q} hl hfor := by
    rw [Shared.handles_congr (step_calls_of_holds hs hl)] at hfor
    refine Bool.eq_false_iff.mpr fun hrecovered => ?_
    obtain ⟨r, hr, hrec⟩ := Shared.isRecovered_iff.mp hrecovered
    have hrec₀ := hrec
    rw [Shared.recovers_congr (step_calls_of_holds hs hr)] at hrec₀
    have hne : q ≠ r := by
      rintro rfl
      obtain ⟨m, hm, -⟩ := Shared.handles_iff.mp hfor
      rw [Shared.handling_of_recovers hrec₀] at hm
      cases hm
    rcases h.batch_cases hs hrec hr with hr | ⟨c, t, limit, k, rfl, hp, ⟨row, hrow, rfl⟩, -⟩
    · have hrecovered : w.shared.isRecovered j = true := Shared.isRecovered_iff.mpr ⟨r, hr, hrec₀⟩
      rcases h.owner_cases hs hl with hl | ⟨c, k, rfl, hp, -⟩
      · rw [hun.apart hl hfor] at hrecovered
        cases hrecovered
      · -- the claim takes the owner
        obtain ⟨m, hm, d, hd, rfl⟩ := Shared.handles_iff.mp hfor
        simp [keepsLockOrder, Shared.inOrder, hp, hm, hd, hrecovered] at hok
    · -- the recovery takes the job
      have hl₀ : w.shared.locks (.user u) = some q :=
        ((h.rely hs fun heq => hne (Option.some.inj heq).symm).locks _).mp hl
      have hclaimed : w.shared.isClaimed row.id = true :=
        Shared.isClaimed_iff.mpr ⟨u, hun.known hl₀, q, hl₀, hfor⟩
      simp only [keepsLockOrder, hp, Shared.inOrder, List.all_eq_true] at hok
      have hfree := hok row hrow
      rw [hclaimed] at hfree
      cases hfree

/-! ## Recoveries among themselves -/

/-- Recovery `p` has a job of an owner whose row recovery `q` has, and the row of an owner itself:
whoever waits for `p` will wait for `q`. -/
def Shared.Heads (s : Shared) (p q : Pid) : Prop :=
  s.recovers p = true ∧ s.recovers q = true ∧ q ≠ p ∧ (∃ u, s.locks (.user u) = some p) ∧
    ∃ j row, s.locks (.job j) = some p ∧ s.core.db.job j = some row ∧
      s.locks (.user row.ownerId) = some q

theorem Shared.mustWait_of {s : Shared} {j : Uuid} {row : Job} (hj : s.locks (.job j) = some p)
    (hrow : s.core.db.job j = some row) (ho : s.locks (.user row.ownerId) = some q) (hne : q ≠ p)
    (hrec : s.recovers q = true) : s.mustWait p = true := by
  obtain rfl := Db.job_id hrow
  refine List.any_eq_true.mpr ⟨row, Table.mem_of_find? hrow, ?_⟩
  simp [hj, ho, hne, hrec]

theorem Shared.isWanted_of {s : Shared} {j : Uuid} {row : Job} (hj : s.locks (.job j) = some q)
    (hrow : s.core.db.job j = some row) (hne : q ≠ p) (hrec : s.recovers q = true)
    (howner : s.hasOwner q = true) : s.isWanted p row.ownerId = true := by
  obtain rfl := Db.job_id hrow
  refine List.any_eq_true.mpr ⟨row, Table.mem_of_find? hrow, ?_⟩
  simp [hj, hne, hrec, howner]

/-- A recovery does not take an owner's row that another one wants when it must wait itself. -/
theorem wanted_or_waits (hok : keepsLockOrder w (.run p .answer) = true) {c : Call} {u : Uuid}
    {k : Except Exc Bool → Code Outcome} (hp : w.procs p = some (c, .call (.lockUser u) k))
    (hrec : w.shared.recovers p = true) :
    w.shared.isWanted p u = false ∨ w.shared.mustWait p = false := by
  simp only [keepsLockOrder, hp, Shared.inOrder, Shared.handling_of_recovers hrec,
    Option.map_none, Bool.not_eq_true', Bool.and_eq_false_iff] at hok
  exact hok

section Step

variable (h : Reachable P w) (hs : (machine P).step mv w = some w')

include h hs

/-- What a recovery with an owner's row has after a step, as far as jobs go, it had before. -/
theorem Reachable.job_before {j u : Uuid} (hrec : w'.shared.recovers p = true)
    (hu : w'.shared.locks (.user u) = some p) (hj : w'.shared.locks (.job j) = some p) :
    w.shared.recovers p = true ∧ w.shared.locks (.job j) = some p ∧
      w.shared.core.db.job j = w'.shared.core.db.job j := by
  refine ⟨?_, ?_, (h.row_of_holds hs hj).symm⟩
  · rw [← Shared.recovers_congr (step_calls_of_holds hs hj)]
    exact hrec
  · rcases h.batch_cases hs hrec hj with hj | ⟨_, _, _, _, -, -, -, hno⟩
    · exact hj
    · exact absurd hu (hno u)

/-- The row of an owner, where somebody else moved. -/
theorem Reachable.owner_before {u : Uuid} (hu : w'.shared.locks (.user u) = some p)
    (hpid : mv.pid ≠ some p) : w.shared.locks (.user u) = some p :=
  ((h.rely hs hpid).locks _).mp hu

/-- **A step in order closes no circle**: where it adds to `Heads`, nothing heads for the start, or
the end heads for nothing. -/
theorem Shared.Heads.step (hun : w.shared.Uncrossed) (hok : keepsLockOrder w mv = true)
    (hpq : w'.shared.Heads p q) : w.shared.Heads p q ∨ (∀ x, ¬ w'.shared.Heads x p) ∨
      ∀ y, ¬ w'.shared.Heads q y := by
  obtain ⟨hrecp, hrecq, hne, ⟨u, hu⟩, j, row, hj, hrow, ho⟩ := hpq
  obtain ⟨hrecp₀, hj₀, hrow₀⟩ := h.job_before hs hrecp hu hj
  rw [hrow] at hrow₀
  have hrecq₀ : w.shared.recovers q = true := by
    rw [← Shared.recovers_congr (step_calls_of_holds hs ho)]
    exact hrecq
  rcases h.owner_cases hs ho with ho₀ | ⟨c, k, rfl, hq, -⟩
  · rcases h.owner_cases hs hu with hu₀ | ⟨c, k, rfl, hp, -⟩
    · exact .inl ⟨hrecp₀, hrecq₀, hne, ⟨u, hu₀⟩, j, row, hj₀, hrow₀, ho₀⟩
    · by_cases howner : ∃ u, w.shared.locks (.user u) = some p
      · exact .inl ⟨hrecp₀, hrecq₀, hne, howner, j, row, hj₀, hrow₀, ho₀⟩
      · -- `p` takes its first owner, and will wait: nobody wants that owner
        refine .inr (.inl fun x hxp => ?_)
        obtain ⟨hrecx, -, hnex, ⟨v, hv⟩, j', row', hj', hrow', ho'⟩ := hxp
        obtain ⟨hrecx₀, hj'₀, hrow'₀⟩ := h.job_before hs hrecx hv hj'
        rw [hrow'] at hrow'₀
        have hv₀ := h.owner_before hs hv fun heq => hnex (Option.some.inj heq)
        have hwaits := Shared.mustWait_of hj₀ hrow₀ ho₀ hne hrecq₀
        have hwants := Shared.isWanted_of (p := p) hj'₀ hrow'₀ hnex.symm hrecx₀
          (Shared.hasOwner_iff.mpr ⟨v, hun.known hv₀, hv₀⟩)
        rcases h.owner_cases hs ho' with ho'₀ | ⟨c', k', -, hp', -⟩
        · exact howner ⟨_, ho'₀⟩
        · rw [hp] at hp'
          cases hp'
          rcases wanted_or_waits hok hp hrecp₀ with hno | hno
          · rw [hno] at hwants
            cases hwants
          · rw [hno] at hwaits
            cases hwaits
  · -- `q` takes the owner that `p` wants: it need not wait
    have hu₀ := h.owner_before hs hu fun heq => hne (Option.some.inj heq)
    have hwants := Shared.isWanted_of (p := q) hj₀ hrow₀ hne.symm hrecp₀
      (Shared.hasOwner_iff.mpr ⟨u, hun.known hu₀, hu₀⟩)
    refine .inr (.inr fun y hqy => ?_)
    obtain ⟨-, hrecy, hney, ⟨v, hv⟩, j', row', hj', hrow', ho'⟩ := hqy
    obtain ⟨-, hj'₀, hrow'₀⟩ := h.job_before hs hrecq hv hj'
    rw [hrow'] at hrow'₀
    have ho'₀ := h.owner_before hs ho' fun heq => hney (Option.some.inj heq).symm
    rw [Shared.recovers_congr (step_calls_of_holds hs ho')] at hrecy
    have hwaits := Shared.mustWait_of hj'₀ hrow'₀ ho'₀ hney hrecy
    rcases wanted_or_waits hok hq hrecq₀ with hno | hno
    · rw [hno] at hwants
      cases hwants
    · rw [hno] at hwaits
      cases hwaits

end Step

/-! ## Along a run -/

/-- Whoever waits for an owner is about to lock it. -/
theorem Op.waitsFor_user {s : Shared} {o : Op} {u : Uuid} (h : .user u ∈ o.waitsFor s p) :
    o = .lockUser u := by
  cases o with
  | lockUser id =>
    simp only [waitsFor] at h
    split at h
    · cases List.mem_singleton.mp h
      rfl
    · cases h
  | selectJobForUpdate id owner =>
    simp only [waitsFor] at h
    split at h <;> simp at h
  | write st =>
    simp only [waitsFor] at h
    split at h
    · cases st <;> simp [Stmt.rows] at h
    · cases h
  | _ => cases h

/-- Where no claim is across a recovery, a deadlock is among recoveries. -/
theorem Awaits.among_recoveries (h : Reachable P w) (hun : w.shared.Uncrossed)
    (hpq : OnCircle (Awaits w) p q) : Recovers w p ∧ ∃ o, AwaitsRow w p q (.user o) := by
  obtain hrecovers | ⟨m, j, o, hm, hfor, ho, ⟨_, _, _, -, -, hj, -⟩, hrecovers⟩ :=
    Awaits.parties h hpq
  · exact hrecovers
  · have hapart := hun.apart ho (Shared.handles_iff.mpr ⟨m, hm, hfor⟩)
    rw [Shared.isRecovered_iff.mpr ⟨q, hj, Shared.recovers_iff.mpr hrecovers⟩] at hapart
    cases hapart

/-- Then each of its parties has a job of the owner that the next has. -/
theorem Awaits.heads (h : Reachable P w) (hun : w.shared.Uncrossed)
    (hpq : OnCircle (Awaits w) p q) : w.shared.Heads p q := by
  obtain ⟨⟨z, hzp⟩, x, hqx⟩ := hpq.round
  obtain ⟨-, u, _, _, _, -, -, hu, -⟩ := Awaits.among_recoveries h hun hzp
  obtain ⟨hrecq, -⟩ := Awaits.among_recoveries h hun hqx
  obtain ⟨hrecp, o, c, op, k, hp, hwaits, ho, hne⟩ := Awaits.among_recoveries h hun hpq
  obtain rfl := Op.waitsFor_user hwaits
  have hrecp' := Shared.recovers_iff.mpr hrecp
  rcases h.pre hp with ⟨-, hworker⟩ | ⟨-, j, row, hj, hrow, rfl⟩
  · rw [Shared.handling_of_recovers hrecp'] at hworker
    cases hworker
  · exact ⟨hrecp', Shared.recovers_iff.mpr hrecq, hne, ⟨u, hu⟩, j, row, hj, hrow, ho⟩

/-- **No deadlock in a run that keeps the order.** Where no claim takes the owner of a job that a
recovery has, no recovery takes a job whose claim has the owner, and none takes the row of an owner
that leaves it both waited for and waiting, no transactions wait for each other in a circle. -/
theorem no_deadlock_in_order
    (h : (machine P).ReachBy (fun w mv => keepsLockOrder w mv = true) (World.init P) w) (p : Pid) :
    ¬ Relation.TransGen (Awaits w) p p := by
  have hinit : (World.init P).shared.Uncrossed := ⟨nofun, nofun⟩
  have hall : Reachable P w ∧ w.shared.Uncrossed ∧
      ∀ p, ¬ Relation.TransGen w.shared.Heads p p := by
    refine h.invariant (I := fun w : World (machine P) => Reachable P w ∧ w.shared.Uncrossed ∧
      ∀ p, ¬ Relation.TransGen w.shared.Heads p p) ⟨.refl, hinit, fun p hp => ?_⟩
      fun w₁ w₂ mv ⟨hr, hun, hno⟩ hok hs => ⟨hr.step hs, hun.step hr hok hs,
        no_circle_of_new (fun _ _ => Shared.Heads.step hr hs hun hok) hno⟩
    obtain ⟨_, ⟨-, -, -, ⟨_, hnone⟩, -⟩, -⟩ := Relation.TransGen.head'_iff.mp hp
    cases hnone
  obtain ⟨hr, hun, hno⟩ := hall
  exact fun hcircle => hno p (circle_of_onCircle (fun _ _ => Awaits.heads hr hun) hcircle)

/-- The lease of the job has expired, recovery has its row and its owner's, and the claim of the
redelivered message comes for the owner. -/
def waitingMoves : List (Move (machine .default)) :=
  claimedMoves ++ [.env (.tick 61000000), .start 4 (.recoverDueBatchOnce {}),
    .run 4 (.time 61000000)] ++ answers 4 3 ++
    [.start 3 (.handleMessage {} "w" ⟨0, .dispatch ⟨11, 10, 0⟩⟩), .run 3 (.time 61000000),
      .run 3 (.uuid 21)] ++ answers 3 2

/-- It waits, and nobody waits for it. -/
theorem no_deadlock_in_order_waiting : ∃ w : World (machine .default), Reachable .default w ∧
    Awaits w 3 4 ∧ ∀ p, ¬ Relation.TransGen (Awaits w) p p := by
  have hrun : ((machine .default).runIf keepsLockOrder waitingMoves (World.init .default)).map
      (fun w => (World.taken w 3, w.shared.locks (.user 1))) = some ([.user 1], some 4) := by
    decide +kernel
  obtain ⟨w, hw, hlocks⟩ := Option.map_eq_some_iff.mp hrun
  rw [Prod.mk.injEq] at hlocks
  obtain ⟨h3, huser⟩ := hlocks
  have hreach : (machine .default).ReachBy (fun w mv => keepsLockOrder w mv = true)
      (World.init .default) w := .of_runIf (fun _ _ ht => ht) hw
  exact ⟨w, hreach.reach, awaits_of_taken (r := .user 1)
    (by rw [h3]; exact List.mem_singleton_self _) huser (by decide), no_deadlock_in_order hreach⟩

/-- The claim of a redelivered message has the owner and waits for the job, recovery has the job and
waits for the owner. -/
theorem lock_orders_cross : ∃ w : World (machine .default), Reachable .default w ∧
    ∃ p, Relation.TransGen (Awaits w) p p := by
  obtain ⟨w, hw, hawaits, hawaits'⟩ := awaits_each_other
  exact ⟨w, hw, 3, .tail (.single hawaits) hawaits'⟩

end CloudJob
